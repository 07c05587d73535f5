import SymbolicAlgebra.Proofs.GrammarSound
import SymbolicAlgebra.Proofs.NodeProperty

set_option autoImplicit false

/-!
# The nodes of formulas

Whatever tokens are read as has only nodes that the grammar makes. The grammar checks
targets, numbers of arguments and the shape of matrices where it makes a node, and takes
names from the tokens. So a stable property of nodes that these checks give
(`Grammar.FormulaNode`) holds at every node of a formula, if the names of the tokens allow it
(`everywhere_of_parse`). The proof is by induction on the derivation of the word
(`Grammar.IsAssignment.everywhere`), with a lemma for each condition of the rules before it. For
calls this is whether the grammar keeps them as calls (`Grammar.keepsCall`).
-/

namespace SymbolicAlgebra

variable {R : Type}

namespace Grammar

/-! ## Calls -/

/-- Whether the grammar keeps a call of the name with `n` arguments as a call. -/
def keepsCall (U : FunctionTable R) (f : String) (n : Nat) : Bool :=
  match Builtin.ofName? f with
  | some b => !b.accepts n && (U.find? f n).isSome
  | none => (U.find? f n).isSome || !U.containsName f

section Calls

variable [Scalar R] {U : FunctionTable R}

theorem callOf_of_keepsCall {f : String} {es : List (Expr R)}
    (h : keepsCall U f es.length = true) : callOf U f es = .ok (.call f es) := by
  cases hb : Builtin.ofName? f with
  | some b =>
    rw [keepsCall, hb] at h
    obtain ⟨hmismatch, hfound⟩ := Bool.and_eq_true_iff.1 h
    rw [Bool.not_eq_true'] at hmismatch
    simp only [callOf, hb, hmismatch, hfound, Bool.false_eq_true, ↓reduceIte]
  | none =>
    rw [keepsCall, hb] at h
    rcases Bool.or_eq_true_iff.1 h with hfound | hfree
    · simp only [callOf, hb, hfound, ↓reduceIte]
    · rw [Bool.not_eq_true'] at hfree
      simp only [callOf, hb, hfree, Bool.false_eq_true, ↓reduceIte, ite_self]

/-- The call of a built-in function that accepts the number of arguments. -/
theorem callOf_builtin {f : String} {b : Builtin} {es : List (Expr R)}
    (hb : Builtin.ofName? f = some b) (ha : b.accepts es.length = true) :
    callOf U f es = b.build f es := by
  unfold callOf
  simp only [hb, ha, ↓reduceIte]

/-- A call stands for a built-in function that accepts the number of arguments, or is
kept. -/
theorem callOf_eq_ok {f : String} {es : List (Expr R)} {e : Expr R}
    (h : callOf U f es = .ok e) :
    (∃ b, Builtin.ofName? f = some b ∧ b.accepts es.length = true ∧ b.build f es = .ok e) ∨
      keepsCall U f es.length = true ∧ e = .call f es := by
  cases hb : Builtin.ofName? f with
  | some b =>
    simp only [callOf, hb] at h
    simp only [keepsCall, hb]
    split at h
    · rename_i ha
      exact .inl ⟨b, rfl, ha, h⟩
    · rename_i ha
      split at h
      · rename_i hu
        exact .inr ⟨by simp [ha, hu], (Except.ok.inj h).symm⟩
      · cases h
  | none =>
    simp only [callOf, hb] at h
    simp only [keepsCall, hb]
    split at h
    · rename_i hu
      exact .inr ⟨by simp [hu], (Except.ok.inj h).symm⟩
    · split at h
      · cases h
      · rename_i hn
        exact .inr ⟨by simp [hn], (Except.ok.inj h).symm⟩

end Calls

/-! ## Properties of the nodes of formulas -/

/-- A stable property of nodes that the checks of the grammar give, where the tokens have the
property `T`. -/
structure FormulaNode (U : FunctionTable R) (T : Token R → Prop) (p : Expr R → Prop) :
    Prop where
  stable : Expr.StableNode p
  name {x : String} : T (.name x) → p (.var x)
  call {f : String} {n : Nat} {es : List (Expr R)} :
    T (.call f n) → keepsCall U f es.length = true → p (.call f es)
  aggregate {op : Aggregate} {es : List (Expr R)} :
    op.minArgs ≤ es.length → p (.aggregate op es)
  define {t v : Expr R} : Builtin.isDefinable t = true → p (.define t v)
  undefine {t : Expr R} : t.isVarOrCall = true → p (.undefine t)
  increment {t : Expr R} : t.isVar = true → p (.increment t)
  decrement {t : Expr R} : t.isVar = true → p (.decrement t)
  update {u : UpdateOp} {t v : Expr R} : t.isVar = true → p (.update u t v)
  derivative {u : Expr R} {x : String} : p (.var x) → p (.derivative u x)
  defaultDerivative {u : Expr R} : p (.derivative u Builtin.defaultVariable)

end Grammar

open SymbolicAlgebra.Expr (Everywhere StableNode everywhere_iff everywhere_of_isPlain)

open Grammar (FormulaNode)

variable {U : FunctionTable R} {T : Token R → Prop} {p : Expr R → Prop}

/-! ## What a call stands for -/

namespace Builtin

variable [Scalar R] {es : List (Expr R)} {e : Expr R} (hp : FormulaNode U T p)

include hp

theorem everywhere_defineTo {t v : Expr R} (hes : ∀ c ∈ [t, v], c.Everywhere p)
    (h : defineTo t v = .ok e) : e.Everywhere p := by
  unfold defineTo at h
  split at h
  · rename_i hd
    rw [← Except.ok.inj h]
    exact everywhere_iff.2 ⟨hp.define hd, hes⟩
  · cases h

theorem everywhere_undefineOf {t : Expr R} (ht : t.Everywhere p) (h : undefineOf t = .ok e) :
    e.Everywhere p := by
  have hes : ∀ c ∈ [t], c.Everywhere p := by simpa using ht
  unfold undefineOf at h
  split at h
  · rw [← Except.ok.inj h]
    exact everywhere_iff.2 ⟨hp.undefine rfl, hes⟩
  · rw [← Except.ok.inj h]
    exact everywhere_iff.2 ⟨hp.undefine rfl, hes⟩
  · cases h

theorem everywhere_derivativeBy {u x : Expr R} (hes : ∀ c ∈ [u, x], c.Everywhere p)
    (h : derivativeBy u x = .ok e) : e.Everywhere p := by
  unfold derivativeBy at h
  split at h
  · rename_i name
    have hx : (Expr.var name).Everywhere p := hes _ (by simp)
    rw [← Except.ok.inj h]
    refine everywhere_iff.2 ⟨hp.derivative hx.here, fun c hc => ?_⟩
    exact hes c (List.mem_cons.2 (.inl (List.mem_singleton.1 hc)))
  · cases h

/-- A built-in function makes an expression with the property of arguments with the
property. -/
theorem everywhere_build {f : String} {b : Builtin} (ha : b.accepts es.length = true)
    (hes : ∀ c ∈ es, c.Everywhere p) (h : b.build f es = .ok e) : e.Everywhere p := by
  have := hp.stable
  -- The grammar checks lists, matrices, definitions, removals and derivatives. What else a
  -- call stands for is plain.
  unfold build at h
  split at h
  case h_3 op =>
    rw [← Except.ok.inj h]
    exact everywhere_iff.2 ⟨hp.aggregate (of_decide_eq_true ha), hes⟩
  case h_9 =>
    obtain ⟨hr, rfl⟩ := Expr.matrixOf_eq_ok_iff.1 (Expr.mapError_eq_ok_iff.1 h)
    exact everywhere_iff.2 ⟨StableNode.matrix hr, hes⟩
  case h_10 => exact everywhere_defineTo hp hes h
  case h_11 t => exact everywhere_undefineOf hp (hes t (List.mem_singleton.2 rfl)) h
  case h_17 =>
    rw [← Except.ok.inj h]
    exact everywhere_iff.2 ⟨hp.defaultDerivative, hes⟩
  case h_18 => exact everywhere_derivativeBy hp hes h
  case h_19 => cases h
  all_goals
    rw [← Except.ok.inj h]
    exact (everywhere_of_isPlain rfl).2 hes

end Builtin

namespace Grammar

variable [Scalar R] {es : List (Expr R)} {e e' e'' : Expr R}

/-! ## Conditions of the rules -/

section Stable

variable [StableNode p]

/-- A literal and its opposite have the property. -/
theorem BareLiteral.everywhere {w : List (Token R)} {n : Expr R} (h : BareLiteral w e n) :
    e.Everywhere p ∧ n.Everywhere p := by
  cases h with
  | number v => exact ⟨Expr.everywhere_number _, Expr.everywhere_number _⟩
  | complex z => exact ⟨Expr.everywhere_complex _, Expr.everywhere_complex _⟩
  | quantity v u => exact ⟨Expr.everywhere_quantity _, Expr.everywhere_quantity _⟩

omit [Scalar R] in
/-- A list of members with the property has it. -/
theorem Collected.everywhere (h : Collected es e) (hes : ∀ c ∈ es, c.Everywhere p) :
    e.Everywhere p := by
  cases h with
  | matrix _ hr => exact everywhere_iff.2 ⟨StableNode.matrix hr, hes⟩
  | vector _ => exact (everywhere_of_isPlain rfl).2 hes

omit [Scalar R] in
/-- Two operands with the property are joined to an expression with the property. -/
theorem everywhere_combine (k : Connective) (he : e.Everywhere p) (he' : e'.Everywhere p) :
    (k.combine e e').Everywhere p := by
  cases k with
  | operation op => exact Expr.everywhere_binary.2 ⟨he, he'⟩
  | fraction =>
    have hes : ∀ c ∈ [e, e'], c.Everywhere p := by simp [he, he']
    exact (everywhere_of_isPlain rfl).2 hes

end Stable

/-- A call of arguments with the property stands for an expression with the property. -/
theorem Called.everywhere (hp : FormulaNode U T p) {f : String} (h : Called U f es e)
    (hf : T (.call f es.length)) (hes : ∀ c ∈ es, c.Everywhere p) : e.Everywhere p := by
  rcases callOf_eq_ok (called_iff.1 h) with ⟨b, -, ha, hb⟩ | ⟨hk, rfl⟩
  · exact Builtin.everywhere_build hp ha hes hb
  · exact everywhere_iff.2 ⟨hp.call hf hk, hes⟩

omit [Scalar R] in
/-- An assignment of operands with the property has it. -/
theorem Assigned.everywhere (hp : FormulaNode U T p) {op : Operator}
    (h : Assigned e e' op e'') (he : e.Everywhere p) (he' : e'.Everywhere p) :
    e''.Everywhere p := by
  have hes : ∀ c ∈ [e, e'], c.Everywhere p := by simp [he, he']
  cases h with
  | define hd => exact everywhere_iff.2 ⟨hp.define hd, hes⟩
  | add hv | sub hv | mul hv | div hv => exact everywhere_iff.2 ⟨hp.update hv, hes⟩

omit [Scalar R] in
/-- A trailing operator behind an operand with the property makes an expression with the
property. -/
theorem Trailed.everywhere (hp : FormulaNode U T p) {op : Operator} (h : Trailed e op e')
    (he : e.Everywhere p) : e'.Everywhere p := by
  have := hp.stable
  have hes : ∀ c ∈ [e], c.Everywhere p := by simpa using he
  cases h with
  | factorial => exact Expr.everywhere_unary.2 he
  | increment hv => exact everywhere_iff.2 ⟨hp.increment hv, hes⟩
  | decrement hv => exact everywhere_iff.2 ⟨hp.decrement hv, hes⟩

/-! ## Words of the grammar -/

omit [Scalar R] in
/-- The tokens of a group have the property if all tokens do. -/
theorem forall_mem_of_group {t t' : Token R} {w : List (Token R)}
    (ht : ∀ u ∈ t :: (w ++ [t']), T u) : ∀ u ∈ w, T u :=
  (List.forall_mem_append.1 (List.forall_mem_cons.1 ht).2).1

omit [Scalar R] in
/-- The tokens of two operands have the property if all tokens do. -/
theorem forall_mem_of_operands {t : Token R} {w w' : List (Token R)}
    (ht : ∀ u ∈ w ++ t :: w', T u) : (∀ u ∈ w, T u) ∧ ∀ u ∈ w', T u := by
  obtain ⟨hw, hw'⟩ := List.forall_mem_append.1 ht
  exact ⟨hw, (List.forall_mem_cons.1 hw').2⟩

mutual
/-- The property holds at every node of what a word stands for, over tokens that allow it. -/
theorem IsAssignment.everywhere (hp : FormulaNode U T p) {w : List (Token R)} {e : Expr R} :
    IsAssignment U w e → (∀ t ∈ w, T t) → e.Everywhere p
  | .chain h, ht => h.everywhere hp ht
  | .assign h h' he, ht => by
    obtain ⟨hw, hw'⟩ := forall_mem_of_operands ht
    exact he.everywhere hp (h.everywhere hp hw) (h'.everywhere hp hw')
theorem IsChain.everywhere (hp : FormulaNode U T p) {l : Level} {w : List (Token R)}
    {e : Expr R} : IsChain U l w e → (∀ t ∈ w, T t) → e.Everywhere p
  | .operand h, ht => h.everywhere hp ht
  | .connective _ h h', ht => by
    have := hp.stable
    obtain ⟨hw, hw'⟩ := forall_mem_of_operands ht
    exact everywhere_combine _ (h.everywhere hp hw) (h'.everywhere hp hw')
  | .juxtaposition _ _ _ h h', ht => by
    have := hp.stable
    obtain ⟨hw, hw'⟩ := List.forall_mem_append.1 ht
    exact Expr.everywhere_binary.2 ⟨h.everywhere hp hw, h'.everywhere hp hw'⟩
theorem IsOperand.everywhere (hp : FormulaNode U T p) {l : Level} {w : List (Token R)}
    {e : Expr R} : IsOperand U l w e → (∀ t ∈ w, T t) → e.Everywhere p
  | .tighter _ h, ht => h.everywhere hp ht
  | .signed h, ht => h.everywhere hp ht
theorem IsSigned.everywhere (hp : FormulaNode U T p) {w : List (Token R)} {e : Expr R} :
    IsSigned U w e → (∀ t ∈ w, T t) → e.Everywhere p
  | .negateLiteral h, _ => by
    have := hp.stable
    exact h.everywhere.2
  | .negate h _, ht | .not h, ht => by
    have := hp.stable
    exact Expr.everywhere_unary.2 (h.everywhere hp (List.forall_mem_cons.1 ht).2)
  | .power h, ht => h.everywhere hp ht
theorem IsPower.everywhere (hp : FormulaNode U T p) {w : List (Token R)} {e : Expr R} :
    IsPower U w e → (∀ t ∈ w, T t) → e.Everywhere p
  | .trailing h, ht => h.everywhere hp ht
  | .power h h', ht | .signed h _ h', ht => by
    have := hp.stable
    obtain ⟨hw, hw'⟩ := forall_mem_of_operands ht
    exact Expr.everywhere_binary.2 ⟨h.everywhere hp hw, h'.everywhere hp hw'⟩
theorem IsTrailing.everywhere (hp : FormulaNode U T p) {w : List (Token R)} {e : Expr R} :
    IsTrailing U w e → (∀ t ∈ w, T t) → e.Everywhere p
  | .primary h, ht => h.everywhere hp ht
  | .trailing h he, ht => he.everywhere hp (h.everywhere hp (List.forall_mem_append.1 ht).1)
theorem IsPrimary.everywhere (hp : FormulaNode U T p) {w : List (Token R)} {e : Expr R} :
    IsPrimary U w e → (∀ t ∈ w, T t) → e.Everywhere p
  | .literal h, _ => by
    have := hp.stable
    exact h.everywhere.1
  | .truth b, _ => by
    have := hp.stable
    exact Expr.everywhere_truth b
  | .name x, ht => everywhere_iff.2 ⟨hp.name (List.forall_mem_singleton.1 ht), nofun⟩
  | .call _ h he, ht => by
    obtain ⟨hf, ht⟩ := List.forall_mem_cons.1 ht
    exact he.everywhere hp hf (h.everywhere hp (forall_mem_of_group ht))
  | .group h, ht => h.everywhere hp (forall_mem_of_group ht)
  | .list h he, ht => by
    have := hp.stable
    exact he.everywhere (h.everywhere hp (forall_mem_of_group ht))
/-- The property holds at every node of the members of a list. -/
theorem IsBody.everywhere (hp : FormulaNode U T p) {w : List (Token R)} {es : List (Expr R)} :
    IsBody U w es → (∀ t ∈ w, T t) → ∀ c ∈ es, c.Everywhere p
  | .empty, _ => nofun
  | .members h, ht => h.everywhere hp ht
theorem IsMembers.everywhere (hp : FormulaNode U T p) {w : List (Token R)}
    {es : List (Expr R)} : IsMembers U w es → (∀ t ∈ w, T t) → ∀ c ∈ es, c.Everywhere p
  | .one h, ht => List.forall_mem_singleton.2 (h.everywhere hp ht)
  | .cons h h', ht => by
    obtain ⟨hw, hw'⟩ := forall_mem_of_operands ht
    exact List.forall_mem_cons.2 ⟨h.everywhere hp hw, h'.everywhere hp hw'⟩
end

end Grammar

variable [Scalar R] {e : Expr R}

/-! ## Whole formulas -/

/-- The property holds at every node of what the tokens are read as. -/
theorem everywhere_of_parse (hp : FormulaNode U T p) {ts : List (Token R)}
    (ht : ∀ t ∈ ts, T t) (h : parse U ts = .ok e) : e.Everywhere p :=
  (Grammar.isAssignment_of_parse h).everywhere hp ht

end SymbolicAlgebra
