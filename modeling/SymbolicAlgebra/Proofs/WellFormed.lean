import SymbolicAlgebra.Proofs.DerivativeNodes
import SymbolicAlgebra.Proofs.FormulaNodes
import SymbolicAlgebra.Proofs.PhraseDerivation
import SymbolicAlgebra.Scalar.SignedFloat

set_option autoImplicit false

/-!
# Well-formed expressions

The grammar refuses a formula whose targets, numbers of arguments or matrices make no sense,
and nothing looks at these things again afterwards. So every expression that reading,
simplification and differentiation come upon must be well-formed (`Expr.WellFormed`) from the start
and stay so (`wellFormed_invariant`). Well-formedness is a stable property of nodes, and what is
shown of those for reading, simplification and differentiation applies to it.
-/

namespace SymbolicAlgebra

variable {R : Type}

namespace Expr

/-! ## Targets, spelled out -/

theorem isVarOrCall_iff {e : Expr R} :
    e.isVarOrCall = true ↔ (∃ x, e = .var x) ∨ ∃ f args, e = .call f args := by
  cases e <;> simp [isVarOrCall]

/-- A list of variables is the list of the variables of some names. -/
theorem all_isVar_iff {es : List (Expr R)} :
    es.all isVar = true ↔ ∃ xs : List String, es = xs.map .var := by
  constructor
  · intro h
    induction es with
    | nil => exact ⟨[], rfl⟩
    | cons e es ih =>
      rw [List.all_cons, Bool.and_eq_true] at h
      obtain ⟨x, rfl⟩ := isVar_iff.1 h.1
      obtain ⟨xs, rfl⟩ := ih h.2
      exact ⟨x :: xs, rfl⟩
  · rintro ⟨xs, rfl⟩
    rw [List.all_map]
    exact List.all_eq_true.2 fun _ _ => rfl

/-- The left side of a definition is a variable, or a call of variables. -/
theorem isDefinable_iff {e : Expr R} :
    Builtin.isDefinable e = true ↔
      (∃ x, e = .var x) ∨ ∃ f, ∃ xs : List String, e = .call f (xs.map .var) := by
  cases e <;> simp [Builtin.isDefinable]
  case call f args => simpa using all_isVar_iff

/-! ## Well-formed expressions -/

/-- What is asked of a node: targets are variables, or function heads where a definition is
made or removed; a list has enough members; the name of a call is not the name of a built-in
function with this number of arguments; and the rows of a matrix that are vectors have one
length. -/
def WellFormedNode : Expr R → Prop
  | .define t _ => (∃ x, t = .var x) ∨ ∃ f, ∃ xs : List String, t = .call f (xs.map .var)
  | .undefine t => (∃ x, t = .var x) ∨ ∃ f args, t = .call f args
  | .increment t | .decrement t | .update _ t _ => ∃ x, t = .var x
  | .aggregate op args => op.minArgs ≤ args.length
  | .call f args => ∀ b, Builtin.ofName? f = some b → b.accepts args.length = false
  | .matrix rows => ∃ n, ∀ es, .vector es ∈ rows → es.length = n
  | _ => True

/-- Every node of the expression is as it should be. -/
def WellFormed (e : Expr R) : Prop := e.Everywhere WellFormedNode

/-- The expression holds no call. -/
def CallFree (e : Expr R) : Prop := e.Everywhere fun c => ∀ f args, c ≠ .call f args

/-- Well-formedness of a node survives a change below it that leaves targets alone. -/
instance : StableNode (WellFormedNode (R := R)) where
  plain e he := by
    cases e <;> first | exact trivial | cases he
  aggregate hlen h := by
    rw [WellFormedNode, ← hlen]
    exact h
  matrix hfit := hfit
  call hlen h := by
    rw [WellFormedNode, ← hlen]
    exact h
  define ht h := isDefinable_iff.1 (ht.isDefinable (isDefinable_iff.2 h))
  undefine ht h := isVarOrCall_iff.1 (ht.isVarOrCall (isVarOrCall_iff.2 h))
  increment ht h := isVar_iff.1 (ht.isVar (isVar_iff.2 h))
  decrement ht h := isVar_iff.1 (ht.isVar (isVar_iff.2 h))
  update ht h := isVar_iff.1 (ht.isVar (isVar_iff.2 h))
  derivative _ := trivial

end Expr

open SymbolicAlgebra.Expr (WellFormed WellFormedNode CallFree)

/-! ## Formulas -/

/-- A call that the grammar keeps is not the call of a built-in function. -/
theorem Grammar.accepts_of_keepsCall {U : FunctionTable R} {f : String} {n : Nat}
    {b : Builtin} (h : keepsCall U f n = true) (hb : Builtin.ofName? f = some b) :
    b.accepts n = false := by
  rw [keepsCall, hb, Bool.and_eq_true, Bool.not_eq_true'] at h
  exact h.1

/-- The checks of the grammar make well-formed nodes, whatever the tokens are. -/
theorem formulaNode_wellFormedNode (U : FunctionTable R) :
    Grammar.FormulaNode U (fun _ => True) WellFormedNode where
  stable := inferInstance
  name _ := trivial
  call _ hk := fun _ hb => Grammar.accepts_of_keepsCall hk hb
  aggregate h := h
  define h := Expr.isDefinable_iff.1 h
  undefine h := Expr.isVarOrCall_iff.1 h
  increment h := Expr.isVar_iff.1 h
  decrement h := Expr.isVar_iff.1 h
  update h := Expr.isVar_iff.1 h
  derivative _ := trivial
  defaultDerivative := trivial

variable [Scalar R]

/-- What tokens are read as is well-formed. -/
theorem wellFormed_of_parse {U : FunctionTable R} {ts : List (Token R)} {e : Expr R}
    (h : parse U ts = .ok e) : e.WellFormed :=
  everywhere_of_parse (formulaNode_wellFormedNode U) (fun _ _ => trivial) h

namespace Expr

/-- Simplification keeps expressions well-formed. -/
theorem wellFormed_simplified {e s : Expr R} (he : e.WellFormed) (h : e.simplified = .ok s) :
    s.WellFormed :=
  everywhere_simplified he h

/-- Differentiation of an expression without calls keeps it well-formed. -/
theorem wellFormed_differentiate {users : FunctionTable R} {simplify : Bool} {e d : Expr R}
    {x : String} (he : e.WellFormed) (hcalls : e.CallFree)
    (h : e.differentiate users simplify x = .ok d) : d.WellFormed := by
  refine everywhere_differentiate he (hcalls.imp fun c hc => ?_) h
  cases c with
  | call f args => exact absurd rfl (hc f args)
  | _ => trivial

end Expr

/-- Well-formed expressions stay well-formed. Whatever tokens are read as is well-formed, and
so is the simplified form of every well-formed expression, and every derivative, simplified or
not, of a well-formed expression without calls. -/
theorem wellFormed_invariant :
    (∀ (U : FunctionTable R) (ts : List (Token R)) (e : Expr R),
      parse U ts = .ok e → e.WellFormed) ∧
    (∀ e s : Expr R, e.WellFormed → e.simplified = .ok s → s.WellFormed) ∧
    ∀ (users : FunctionTable R) (simplify : Bool) (e d : Expr R) (x : String), e.WellFormed →
      e.CallFree → e.differentiate users simplify x = .ok d → d.WellFormed :=
  ⟨fun _ _ _ h => wellFormed_of_parse h, fun _ _ he h => Expr.wellFormed_simplified he h,
    fun _ _ _ _ _ he hcalls h => Expr.wellFormed_differentiate he hcalls h⟩

/-- The formula `sum(x, x)` is read; it is its own simplified form, and its derivative by `x`
has two members again. -/
theorem wellFormed_invariant_sum :
    let ts : List (Token SignedFloat) := [.call "sum" 2, .delimiter .openParen, .name "x",
      .delimiter .comma, .name "x", .delimiter .closeParen]
    let e : Expr SignedFloat := .aggregate .sum [.var "x", .var "x"]
    let d : Expr SignedFloat := .aggregate .sum [.one, .one]
    parse FunctionTable.empty ts = .ok e ∧ e.simplified = .ok e ∧ e.CallFree ∧
      e.differentiate FunctionTable.empty false "x" = .ok d ∧ e.WellFormed ∧ d.WellFormed := by
  intro ts e d
  have hx : Phrase (R := SignedFloat) FunctionTable.empty _ _ (.var "x") :=
    .atom (.name (x := "x") (by decide +kernel))
  have hsum : Phrase FunctionTable.empty _ ts e :=
    .atom (.call (f := "sum") (b := .openParen) (by decide +kernel) rfl
      (.items (.cons hx (.one hx))) rfl)
  have hparse : parse FunctionTable.empty ts = .ok e := hsum.parse
  have hchildren : List.Forall₂ (fun c c' => c.simplified = .ok c') e.children e.children :=
    .cons (Expr.simplified_var _) (.cons (Expr.simplified_var _) .nil)
  have hsimplified : e.simplified = .ok e :=
    Expr.simplified_eq_ok_iff.2
      ⟨e, Expr.mapChildren_eq_ok_iff.2 ⟨_, hchildren, rfl⟩, .inl ⟨rfl, rfl⟩⟩
  have hcalls : e.CallFree := by
    refine Expr.everywhere_iff.2 ⟨nofun, fun c hc => ?_⟩
    rcases List.mem_pair.1 hc with rfl | rfl <;> exact Expr.everywhere_iff.2 ⟨nofun, nofun⟩
  have hexpanded : e.expandCalls FunctionTable.empty maxBodies = .ok e := by
    refine Expr.expandCalls_eq_self rfl rfl fun c hc => ?_
    rcases List.mem_pair.1 hc with rfl | rfl <;> exact Expr.expandCalls_eq_self rfl rfl nofun
  have hderivative : e.derivativeBy "x" = .ok d := by
    rw [Expr.derivativeBy_eq]
    change (List.mapM (Expr.derivativeBy "x") [.var "x", .var "x"]).map _ = _
    rw [List.mapM_cons, List.mapM_cons, Expr.derivativeBy_var]
    rfl
  have hdiff := Expr.differentiate_eq_ok (by decide) hexpanded hderivative
  obtain ⟨hread, hsimplify, hdifferentiate⟩ := wellFormed_invariant (R := SignedFloat)
  have he : e.WellFormed := hsimplify e e (hread _ ts e hparse) hsimplified
  exact ⟨hparse, hsimplified, hcalls, hdiff, he, hdifferentiate _ _ e d "x" he hcalls hdiff⟩

end SymbolicAlgebra
