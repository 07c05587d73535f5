import SymbolicAlgebra.Proofs.CallExpansion
import SymbolicAlgebra.Proofs.DerivativeNodes

set_option autoImplicit false

/-!
# The symbols that an expression mentions

An expression mentions variables, functions that are not built in, and the variables by which
its derivatives are taken (`Expr.Mentions`). The rules of simplification and of differentiation
drop parts of an expression and copy others, but what they write of their own is literals, built-in
functions and operations. So neither comes up with a symbol that was not there
(`Expr.mentions_of_simplified`, `Expr.mentions_of_derivativeBy`).

With calls there is more to say. A definition keeps the calls inside it, and it may stand in an
operand that a derivative copies, so a derivative may still mention functions. But outside
definitions it has only the calls of the expression (`Expr.hasCall_of_derivativeBy`), and what has
been expanded has none there. `Expr.symbols_not_invented` states simplification and differentiation
together.
-/

namespace SymbolicAlgebra

/-! ## Symbols -/

/-- A name in the role in which an expression mentions it. -/
inductive Symbol where
  /-- A variable or named constant. -/
  | var (x : String)
  /-- A function that is not built in, with a number of arguments. -/
  | function (f : String) (arity : Nat)
  /-- The variable by which a derivative is taken. -/
  | differential (x : String)

namespace Expr

variable {R : Type}

/-- The symbol that a node mentions itself. -/
def symbol? : Expr R → Option Symbol
  | .var x => some (.var x)
  | .call f args => some (.function f args.length)
  | .derivative _ x => some (.differential x)
  | _ => none

/-- Some node of the expression mentions the symbol. -/
inductive Mentions (n : Symbol) : Expr R → Prop where
  /-- The node mentions it itself. -/
  | here {e : Expr R} (h : e.symbol? = some n) : Mentions n e
  /-- A direct subexpression mentions it. -/
  | child {e c : Expr R} (hc : c ∈ e.children) (h : Mentions n c) : Mentions n e

/-- The symbols of an expression, by its root. -/
theorem mentions_iff {n : Symbol} {e : Expr R} :
    e.Mentions n ↔ e.symbol? = some n ∨ ∃ c ∈ e.children, c.Mentions n := by
  constructor
  · intro h
    cases h with
    | here h => exact .inl h
    | child hc h => exact .inr ⟨_, hc, h⟩
  · rintro (h | ⟨c, hc, h⟩)
    · exact .here h
    · exact .child hc h

/-- Only a variable mentions a variable itself. -/
theorem symbol?_ne_var {e : Expr R} (h : e.isVar = false) (x : String) :
    e.symbol? ≠ some (.var x) := by
  cases e with
  | var y => cases h
  | _ => simp [symbol?]

/-- A variable is contained where it is mentioned as one. -/
theorem containsVar_iff_mentions {x : String} {e : Expr R} :
    e.containsVar x = true ↔ e.Mentions (.var x) := by
  induction e using Expr.induction with
  | step e ih =>
    cases hvar : e.isVar with
    | true =>
      obtain ⟨y, rfl⟩ := isVar_iff.1 hvar
      rw [mentions_iff]
      simp [symbol?, containsVar, children]
    | false =>
      rw [containsVar_eq_any hvar, List.any_eq_true, mentions_iff,
        or_iff_right (symbol?_ne_var hvar x)]
      exact exists_congr fun c => and_congr_right (ih c)

/-! ## Expressions over a set of symbols -/

/-- The symbol of the node, if it has one, is one of the symbols `S`. -/
def SymbolIn (S : Symbol → Prop) (e : Expr R) : Prop := ∀ n, e.symbol? = some n → S n

/-- At all nodes the symbols are among `S` exactly where the expression mentions no others. -/
theorem everywhere_symbolIn_iff {S : Symbol → Prop} {e : Expr R} :
    e.Everywhere (SymbolIn S) ↔ ∀ n, e.Mentions n → S n := by
  induction e using Expr.induction with
  | step e ih =>
    rw [everywhere_iff]
    constructor
    · rintro ⟨hnode, hchildren⟩ n hn
      rcases mentions_iff.1 hn with h | ⟨c, hc, h⟩
      · exact hnode n h
      · exact (ih c hc).1 (hchildren c hc) n h
    · intro h
      exact ⟨fun n hn => h n (.here hn),
        fun c hc => (ih c hc).2 fun n hn => h n (.child hc hn)⟩

/-- A node looks at its own symbol only, and a change below it leaves that alone. -/
instance (S : Symbol → Prop) : StableNode (R := R) (SymbolIn S) where
  plain e he := by
    cases e with
    | var x => cases he
    | call f args => cases he
    | derivative body x => cases he
    | _ => intro n hn; cases hn
  aggregate _ _ n hn := by cases hn
  matrix _ n hn := by cases hn
  call hlen h := by
    rw [SymbolIn, symbol?, ← hlen]
    exact h
  define _ _ n hn := by cases hn
  undefine _ _ n hn := by cases hn
  increment _ _ n hn := by cases hn
  decrement _ _ n hn := by cases hn
  update _ _ n hn := by cases hn
  derivative h := h

variable [Scalar R]

/-- A simplified form mentions what the expression mentions. -/
theorem mentions_of_simplified {e s : Expr R} {n : Symbol} (h : e.simplified = .ok s)
    (hn : s.Mentions n) : e.Mentions n := by
  have he : e.Everywhere (SymbolIn (e.Mentions ·)) := everywhere_symbolIn_iff.2 fun _ hn => hn
  exact everywhere_symbolIn_iff.1 (everywhere_simplified he h) n hn

/-- A derivative mentions what the expression mentions. -/
theorem mentions_of_derivativeBy {x : String} {e d : Expr R} {n : Symbol}
    (h : e.derivativeBy x = .ok d) (hn : d.Mentions n) : e.Mentions n := by
  have he : e.Everywhere (SymbolIn (e.Mentions ·)) := everywhere_symbolIn_iff.2 fun _ hn => hn
  exact everywhere_symbolIn_iff.1 (everywhere_derivativeBy he x d h) n hn

/-! ## Calls outside definitions -/

section Calls

variable {k : String × Nat}

omit [Scalar R] in
/-- A node that is neither a call nor a definition has the calls of its direct
subexpressions. -/
theorem hasCall_iff_of_isCallOrDefinition {e : Expr R} (h : e.isCallOrDefinition = false) :
    e.HasCall k ↔ ∃ c ∈ e.children, c.HasCall k := by
  obtain ⟨hkey, hdef⟩ := isCallOrDefinition_eq_false_iff.1 h
  rw [hasCall_iff, hkey, hdef]
  simp

omit [Scalar R] in
/-- A node that may have a derivative is no definition. -/
theorem isDefinition_of_hasDerivative {e : Expr R} (h : Derivative.hasDerivative e = true) :
    e.isDefinition = false := by
  cases e <;> first | rfl | cases h

/-- To have no call outside definitions is passed on by the rules of differentiation: they
write no call, and what they differentiate is no definition. -/
instance (k : String × Nat) : Derivative.Inherited (R := R) fun e => ¬ e.HasCall k where
  literal v := hasCall_number v
  function _ := by
    rw [hasCall_iff_of_isCallOrDefinition rfl]
    simp [children]
  operation _ := by
    rw [hasCall_iff_of_isCallOrDefinition rfl]
    simp [children]
  product _ _ hl hr := by
    rw [hasCall_iff_of_isCallOrDefinition rfl]
    simp [children, hl, hr]
  sum _ _ hds := by
    rw [hasCall_iff_of_isCallOrDefinition rfl]
    rintro ⟨d, hd, hk⟩
    exact hds d hd hk
  vector _ hds := by
    rw [hasCall_vector]
    rintro ⟨d, hd, hk⟩
    exact hds d hd hk
  matrix _ _ hds := by
    rw [hasCall_matrix]
    rintro ⟨d, hd, hk⟩
    exact hds d hd hk
  child hkind h hc hk := h (.child (isDefinition_of_hasDerivative hkind) hc hk)

/-- Outside definitions a derivative has the calls of the expression only. -/
theorem hasCall_of_derivativeBy {x : String} {e d : Expr R} (h : e.derivativeBy x = .ok d)
    (hk : d.HasCall k) : e.HasCall k := by
  by_contra he
  exact inherited_derivativeBy (P := fun e => ¬ e.HasCall k) he x d h hk

end Calls

/-! ## Simplification and differentiation -/

/-- What is not simplified afterwards is the derivative of the expanded expression. -/
theorem derivativeBy_of_differentiate {users : FunctionTable R} {e e' d : Expr R} {x : String}
    (he : e.expandCalls users maxBodies = .ok e') (h : e.differentiate users false x = .ok d) :
    e'.derivativeBy x = .ok d := by
  unfold differentiate at h
  split at h
  · cases h
  · obtain ⟨r, hr, h⟩ := bind_eq_ok_iff.1 h
    cases he.symm.trans hr
    obtain ⟨d', hd', hd⟩ := bind_eq_ok_iff.1 h
    cases hd
    exact hd'

/-- No symbol is invented. A simplified form mentions only what the expression mentions:
variables, functions with their numbers of arguments, and variables of derivatives. A derivative
mentions only what the expanded expression mentions, and it has no call outside definitions. In
particular each contains only variables that were contained before. -/
theorem symbols_not_invented (t : Expr R) :
    (∀ s, t.simplified = .ok s →
      (∀ n, s.Mentions n → t.Mentions n) ∧
      ∀ x, s.containsVar x = true → t.containsVar x = true) ∧
    ∀ (users : FunctionTable R) (r d : Expr R) (v : String),
      t.expandCalls users maxBodies = .ok r → t.differentiate users false v = .ok d →
      (∀ n, d.Mentions n → r.Mentions n) ∧ (∀ k, ¬ d.HasCall k) ∧
      ∀ x, d.containsVar x = true → r.containsVar x = true := by
  constructor
  · intro s hs
    refine ⟨fun n => mentions_of_simplified hs, fun x hx => ?_⟩
    rw [containsVar_iff_mentions] at hx ⊢
    exact mentions_of_simplified hs hx
  · intro users r d v hr hd
    have hderivative := derivativeBy_of_differentiate hr hd
    refine ⟨fun n => mentions_of_derivativeBy hderivative, fun k hk => ?_, fun x hx => ?_⟩
    · exact hasCall_of_expandCalls hr (hasCall_of_derivativeBy hderivative hk)
    · rw [containsVar_iff_mentions] at hx ⊢
      exact mentions_of_derivativeBy hderivative hx

/-- With `f(t) := t * t` the sum `f(x) + 0` is simplified to `f(x)`, and expanded and
differentiated by `x` to `1 * x + x * 1`. -/
theorem symbols_not_invented_call :
    let U : FunctionTable ℚ :=
      FunctionTable.empty.register ⟨"f", ["t"], .mul (.var "t") (.var "t")⟩
    let s : Expr ℚ := .call "f" [.var "x"]
    let t : Expr ℚ := .add s .zero
    let r : Expr ℚ := .add (.mul (.var "x") (.var "x")) .zero
    let d : Expr ℚ := .add (.mul .one (.var "x")) (.mul (.var "x") .one)
    (t.simplified = .ok s ∧ (∀ n, s.Mentions n → t.Mentions n) ∧
      ∀ x, s.containsVar x = true → t.containsVar x = true) ∧
    t.expandCalls U maxBodies = .ok r ∧ t.differentiate U false "x" = .ok d ∧
      (∀ n, d.Mentions n → r.Mentions n) ∧ (∀ k, ¬ d.HasCall k) ∧
      ∀ x, d.containsVar x = true → r.containsVar x = true := by
  intro U s t r d
  have hs : s.simplified = .ok s := simplified_eq_ok_iff.2
    ⟨s, mapChildren_eq_ok_iff.2 ⟨_, .cons (simplified_var _) .nil, rfl⟩, .inl ⟨rfl, rfl⟩⟩
  have hsimplified : t.simplified = .ok s := by
    rw [simplified_binary_eq hs (simplified_number _)]
    exact hs
  have hx : ∀ left, (Expr.var "x" : Expr ℚ).expandCalls U left = .ok (.var "x") := fun left =>
    expandCalls_eq_self rfl rfl nofun
  have hsquare : ∀ left, (Expr.mul (.var "x") (.var "x")).expandCalls U left =
      .ok (.mul (.var "x") (.var "x")) := fun left =>
    expandCalls_eq_self rfl rfl (by simpa [children] using hx left)
  have hcall : s.expandCalls U maxBodies = .ok (.mul (.var "x") (.var "x")) :=
    expandCalls_call_eq_ok_iff.2 ⟨63, _, [.var "x"], _, rfl, rfl,
      mapM_eq_ok_iff.2 (.cons (hx _) .nil), rfl, hsquare 63⟩
  have hzero : (Expr.zero : Expr ℚ).expandCalls U maxBodies = .ok .zero :=
    expandCalls_eq_self rfl rfl nofun
  have hexpanded : t.expandCalls U maxBodies = .ok r := by
    rw [expandCalls_eq_mapChildren rfl]
    exact mapChildren_eq_ok_iff.2 ⟨_, .cons hcall (.cons hzero .nil), rfl⟩
  have hproduct : (Expr.mul (.var "x") (.var "x") : Expr ℚ).derivativeBy "x" = .ok d := by
    rw [derivativeBy_binary rfl rfl]
    exact binaryBy_eq_ok rfl (by decide) (operandBy_var _ _) (operandBy_var _ _)
  have hderivative : r.derivativeBy "x" = .ok d := by
    rw [derivativeBy_binary rfl rfl]
    exact binaryBy_eq_ok rfl (by decide) (operandBy_of_containsVar rfl hproduct)
      (operandBy_constant rfl)
  have hdiff := differentiate_eq_ok (by decide) hexpanded hderivative
  obtain ⟨hsimplify, hdifferentiate⟩ := symbols_not_invented t
  exact ⟨⟨hsimplified, hsimplify s hsimplified⟩, hexpanded, hdiff,
    hdifferentiate U r d "x" hexpanded hdiff⟩

end Expr

end SymbolicAlgebra
