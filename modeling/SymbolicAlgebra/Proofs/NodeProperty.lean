import SymbolicAlgebra.Grammar.Builtin
import SymbolicAlgebra.Proofs.SimplifyRun

set_option autoImplicit false

/-!
# Properties of all nodes

Simplification and differentiation rebuild nodes from subexpressions that they have changed.
A property of nodes survives this where it asks of the direct subexpressions only what
every such change keeps (`Expr.StableNode`): the target of an update stays a variable, the left
side of a definition stays one (`Expr.KeepsTarget`), a list keeps its length, and the rows of a
matrix fit. A stable property that holds at every node (`Expr.Everywhere`) holds at every node of
what is rebuilt (`keepsEverywhere_rebuild`).
-/

namespace SymbolicAlgebra.Expr

variable {R : Type} {p : Expr R → Prop}

/-! ## All nodes of an expression -/

/-- A property that holds at every node of an expression. -/
inductive Everywhere (p : Expr R → Prop) : Expr R → Prop where
  | node {e : Expr R} (h : p e) (hc : ∀ c ∈ e.children, Everywhere p c) : Everywhere p e

theorem everywhere_iff {e : Expr R} :
    Everywhere p e ↔ p e ∧ ∀ c ∈ e.children, Everywhere p c :=
  ⟨fun h => by cases h with | node h hc => exact ⟨h, hc⟩, fun h => .node h.1 h.2⟩

theorem Everywhere.here {e : Expr R} (h : e.Everywhere p) : p e := (everywhere_iff.1 h).1

theorem Everywhere.child {c e : Expr R} (h : e.Everywhere p) (hc : c ∈ e.children) :
    c.Everywhere p :=
  (everywhere_iff.1 h).2 c hc

/-- What follows from the property at each node holds at every node. -/
theorem Everywhere.imp {q : Expr R → Prop} {e : Expr R} (h : e.Everywhere p)
    (hpq : ∀ e, p e → q e) : e.Everywhere q := by
  induction h with
  | node h _ ih => exact .node (hpq _ h) ih

/-! ## Targets -/

/-- Whether the expression is a variable or a call. -/
def isVarOrCall : Expr R → Bool
  | .var _ | .call _ _ => true
  | _ => false

/-- The change of an expression leaves it what it is as the target of a definition or an
update. -/
structure KeepsTarget (e s : Expr R) : Prop where
  isVar : e.isVar = true → s.isVar = true
  isVarOrCall : e.isVarOrCall = true → s.isVarOrCall = true
  isDefinable : Builtin.isDefinable e = true → Builtin.isDefinable s = true

/-- What is no target may change into anything. -/
theorem keepsTarget_of_not {e : Expr R} (h : e.isVarOrCall = false) (s : Expr R) :
    KeepsTarget e s := by
  cases e with
  | var x => cases h
  | call f args => cases h
  | _ => exact ⟨nofun, nofun, nofun⟩

/-- Variables among the arguments stay variables. -/
theorem all_isVar_of_keepsTarget {es ss : List (Expr R)} (h : List.Forall₂ KeepsTarget es ss)
    (hv : es.all isVar = true) : ss.all isVar = true := by
  induction h with
  | nil => rfl
  | cons he _ ih =>
    simp only [List.all_cons, Bool.and_eq_true] at hv ⊢
    exact ⟨he.isVar hv.1, ih hv.2⟩

/-- A node over changed subexpressions is the same target. -/
theorem keepsTarget_withChildren {e : Expr R} {cs : List (Expr R)}
    (h : List.Forall₂ KeepsTarget e.children cs) : KeepsTarget e (e.withChildren cs) := by
  cases e with
  | var x => exact ⟨fun _ => rfl, fun _ => rfl, fun _ => rfl⟩
  | call f args => exact ⟨nofun, fun _ => rfl, fun hv => all_isVar_of_keepsTarget h hv⟩
  | _ => exact keepsTarget_of_not rfl _

/-! ## Stable properties -/

/-- Whether the node has neither a name nor a target nor a list of a certain length or
shape. -/
def isPlain : Expr R → Bool
  | .var _ | .aggregate _ _ | .matrix _ | .call _ _ | .define _ _ | .undefine _
  | .increment _ | .decrement _ | .update _ _ _ | .derivative _ _ => false
  | _ => true

/-- A plain node stays plain. -/
theorem isPlain_withChildren (e : Expr R) (cs : List (Expr R)) :
    (e.withChildren cs).isPlain = e.isPlain := by
  unfold withChildren
  split <;> rfl

/-- A property of nodes that holds of every plain node and, at the other nodes, survives a
change of the direct subexpressions that leaves targets alone. -/
class StableNode (p : Expr R → Prop) : Prop where
  plain (e : Expr R) : e.isPlain = true → p e
  aggregate {op : Aggregate} {es es' : List (Expr R)} :
    es.length = es'.length → p (.aggregate op es) → p (.aggregate op es')
  matrix {rows : List (Expr R)} : RowsFit rows → p (.matrix rows)
  call {f : String} {es es' : List (Expr R)} :
    es.length = es'.length → p (.call f es) → p (.call f es')
  define {t t' v v' : Expr R} : KeepsTarget t t' → p (.define t v) → p (.define t' v')
  undefine {t t' : Expr R} : KeepsTarget t t' → p (.undefine t) → p (.undefine t')
  increment {t t' : Expr R} : KeepsTarget t t' → p (.increment t) → p (.increment t')
  decrement {t t' : Expr R} : KeepsTarget t t' → p (.decrement t) → p (.decrement t')
  update {op : UpdateOp} {t t' v v' : Expr R} :
    KeepsTarget t t' → p (.update op t v) → p (.update op t' v')
  derivative {u u' : Expr R} {x : String} : p (.derivative u x) → p (.derivative u' x)

section Stable

variable [StableNode p]

/-- A plain node has the property everywhere as soon as its direct subexpressions have. -/
theorem everywhere_of_isPlain {e : Expr R} (h : e.isPlain = true) :
    e.Everywhere p ↔ ∀ c ∈ e.children, c.Everywhere p := by
  rw [everywhere_iff, and_iff_right (StableNode.plain e h)]

@[simp] theorem everywhere_number (v : R) : (number v).Everywhere p :=
  (everywhere_of_isPlain rfl).2 nofun

@[simp] theorem everywhere_truth (b : Bool) : (truth b : Expr R).Everywhere p :=
  (everywhere_of_isPlain rfl).2 nofun

@[simp] theorem everywhere_complex (z : ComplexNumber R) : (complex z).Everywhere p :=
  (everywhere_of_isPlain rfl).2 nofun

@[simp] theorem everywhere_quantity (q : Quantity R) : (quantity q).Everywhere p :=
  (everywhere_of_isPlain rfl).2 nofun

@[simp] theorem everywhere_unary {op : UnaryOp} {e : Expr R} :
    (unary op e).Everywhere p ↔ e.Everywhere p := by
  rw [everywhere_of_isPlain rfl]
  simp [children]

@[simp] theorem everywhere_binary {op : BinaryOp} {l r : Expr R} :
    (binary op l r).Everywhere p ↔ l.Everywhere p ∧ r.Everywhere p := by
  rw [everywhere_of_isPlain rfl]
  simp [children]

@[simp] theorem everywhere_simplify {e : Expr R} :
    (Expr.simplify e).Everywhere p ↔ e.Everywhere p := by
  rw [everywhere_of_isPlain rfl]
  simp [children]

/-- The property survives at a node over changed subexpressions; the rows of a matrix must
fit again. -/
theorem node_withChildren {e : Expr R} {cs : List (Expr R)} (he : p e)
    (h : List.Forall₂ KeepsTarget e.children cs) (hrows : e.isMatrix = true → RowsFit cs) :
    p (e.withChildren cs) := by
  cases hplain : e.isPlain with
  | true => exact StableNode.plain _ ((isPlain_withChildren e cs).trans hplain)
  | false =>
    cases e <;> simp only [isPlain, Bool.true_eq_false] at hplain
    case var x => exact he
    case aggregate op args => exact StableNode.aggregate h.length_eq he
    case matrix rows => exact StableNode.matrix (hrows rfl)
    case call f args => exact StableNode.call h.length_eq he
    case define t v =>
      cases h with
      | cons ht hv =>
        cases hv with
        | cons hv hn =>
          cases hn
          exact StableNode.define ht he
    case undefine t =>
      cases h with
      | cons ht hn =>
        cases hn
        exact StableNode.undefine ht he
    case increment t =>
      cases h with
      | cons ht hn =>
        cases hn
        exact StableNode.increment ht he
    case decrement t =>
      cases h with
      | cons ht hn =>
        cases hn
        exact StableNode.decrement ht he
    case update op t v =>
      cases h with
      | cons ht hv =>
        cases hv with
        | cons hv hn =>
          cases hn
          exact StableNode.update ht he
    case derivative u x =>
      cases h with
      | cons hu hn =>
        cases hn
        exact StableNode.derivative he

end Stable

/-! ## Rebuilding nodes -/

/-- A change of the expression that keeps the property at every node and leaves targets
alone. -/
def KeepsEverywhere (p : Expr R → Prop) (e s : Expr R) : Prop :=
  e.Everywhere p → s.Everywhere p ∧ KeepsTarget e s

/-- A node that is rebuilt from changed subexpressions keeps the property. -/
theorem keepsEverywhere_rebuild [StableNode p] {ε : Type} {ofShape : ShapeError → ε}
    {e node : Expr R} {cs : List (Expr R)}
    (h : List.Forall₂ (KeepsEverywhere p) e.children cs)
    (hn : e.rebuild ofShape cs = .ok node) : KeepsEverywhere p e node := by
  intro he
  obtain ⟨hnode, hchildren⟩ := everywhere_iff.1 he
  -- Every changed subexpression has the property again, and is the target that it was.
  have hboth : List.Forall₂ (fun c c' => c'.Everywhere p ∧ KeepsTarget c c') e.children cs :=
    forall₂_imp_of_mem h fun c hc _ hc' => hc' (hchildren c hc)
  have htargets : List.Forall₂ KeepsTarget e.children cs := hboth.imp fun _ _ h => h.2
  -- Of a matrix the property asks more than of its rows, but rebuilding has checked them.
  obtain ⟨hrows, rfl⟩ := rebuild_eq_ok_iff.1 hn
  refine ⟨everywhere_iff.2 ⟨node_withChildren hnode htargets hrows, ?_⟩,
    keepsTarget_withChildren htargets⟩
  rw [children_withChildren e h.length_eq.symm]
  exact ((List.forall₂_and_left (R := fun c' c => KeepsTarget c c') _ _).1 hboth.flip).1

end SymbolicAlgebra.Expr
