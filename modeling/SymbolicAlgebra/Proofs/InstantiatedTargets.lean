import SymbolicAlgebra.FunctionTable
import SymbolicAlgebra.Proofs.CallGraph
import SymbolicAlgebra.Proofs.WellFormed

set_option autoImplicit false

/-!
# Targets in instantiated bodies

The grammar accepts a definition, the removal of one, or an update only where its target is of
the right kind (`Expr.LegalTarget`). A body that is instantiated does not go through the grammar
again: the actual arguments are put in the place of the formal ones wherever these stand, also
where a formal argument is a target.

Instantiation therefore keeps targets as the grammar wants them exactly where every formal argument
that stands as a target, or among the arguments of a function head that is being defined, has an
actual argument that may stand there (`Expr.TargetStays`). This is `Expr.legalTarget_withChildren`
at one node, `Expr.legalTargets_of_substitute` for whole expressions, and
`FunctionDef.legalTargets_of_instantiate` for bodies and arguments that are read. The condition is
not always met (`FunctionDef.not_legalTargets_of_instantiate`).
-/

namespace SymbolicAlgebra

variable {R : Type}

/-! ## Targets before and after a substitution -/

/-- Whatever is put in the place of the variable passes the test. -/
def Bindings.Passes (σ : Bindings R) (test : Expr R → Bool) (x : String) : Prop :=
  ∀ a, σ x = some a → test a = true

namespace Expr

variable {σ : Bindings R}

/-- The node has no target, or one that the grammar accepts: a definition has a variable or a
function head whose arguments are variables, its removal a variable or a call, and an update a
variable. -/
def LegalTarget : Expr R → Prop
  | .define t _ => Builtin.isDefinable t = true
  | .undefine t => t.isVarOrCall = true
  | .increment t | .decrement t | .update _ t _ => t.isVar = true
  | _ => True

/-- What is put in the place of the target, or in the place of an argument of the function head
that is being defined, may stand there. -/
def TargetStays (σ : Bindings R) : Expr R → Prop
  | .define (.var x) _ => σ.Passes Builtin.isDefinable x
  | .define (.call _ args) _ => ∀ x, .var x ∈ args → σ.Passes isVar x
  | .undefine (.var x) => σ.Passes isVarOrCall x
  | .increment (.var x) | .decrement (.var x) | .update _ (.var x) _ => σ.Passes isVar x
  | _ => True

/-- Whether the node defines, removes or updates something. -/
def hasTarget : Expr R → Bool
  | .define _ _ | .undefine _ | .increment _ | .decrement _ | .update _ _ _ => true
  | _ => false

/-- Other direct subexpressions give a node no target and take none away. -/
theorem hasTarget_withChildren (e : Expr R) (cs : List (Expr R)) :
    (e.withChildren cs).hasTarget = e.hasTarget := by
  unfold withChildren
  split <;> rfl

theorem legalTarget_of_not {e : Expr R} (h : e.hasTarget = false) : LegalTarget e := by
  cases e <;> trivial

/-- A well-formed node has a legal target. -/
theorem legalTarget_of_wellFormedNode {e : Expr R} (h : WellFormedNode e) : LegalTarget e := by
  cases e with
  | define t v => exact isDefinable_iff.2 h
  | undefine t => exact isVarOrCall_iff.2 h
  | increment t => exact isVar_iff.2 h
  | decrement t => exact isVar_iff.2 h
  | update op t v => exact isVar_iff.2 h
  | _ => trivial

/-! ## One node -/

/-- A test that variables pass is passed after the substitution exactly where what is put in
passes it. -/
theorem passes_iff {test : Expr R → Bool} {x : String} {s : Expr R}
    (htest : test (.var x) = true) (h : (Expr.var x).substitute σ = .ok s) :
    test s = true ↔ σ.Passes test x := by
  rw [substitute_var] at h
  obtain rfl := Except.ok.inj h
  unfold Bindings.Passes
  cases σ x <;> simp [htest]

/-- The arguments of a function head. -/
theorem all_isVar_of_substitute {args cs : List (Expr R)} (hvars : args.all isVar = true)
    (h : List.Forall₂ (fun c c' => c.substitute σ = .ok c') args cs) :
    cs.all isVar = true ↔ ∀ x, .var x ∈ args → σ.Passes isVar x := by
  induction h with
  | nil => simp
  | cons hc _ ih =>
    rw [List.all_cons, Bool.and_eq_true] at hvars ⊢
    obtain ⟨y, rfl⟩ := isVar_iff.1 hvars.1
    rw [passes_iff rfl hc, ih hvars.2]
    simp only [List.mem_cons, Expr.var.injEq, or_imp, forall_and, forall_eq]

/-- The target of a removal. A call stays a call. -/
theorem isVarOrCall_of_substitute {t s : Expr R} (ht : t.isVarOrCall = true)
    (h : t.substitute σ = .ok s) :
    s.isVarOrCall = true ↔ TargetStays σ (.undefine t) := by
  rcases isVarOrCall_iff.1 ht with ⟨x, rfl⟩ | ⟨f, args, rfl⟩
  · exact passes_iff rfl h
  · obtain ⟨cs, -, -, rfl⟩ := (substitute_eq_ok_iff rfl).1 h
    exact ⟨fun _ => trivial, fun _ => rfl⟩

/-- The target of a definition. -/
theorem isDefinable_of_substitute {t s v : Expr R} (ht : Builtin.isDefinable t = true)
    (h : t.substitute σ = .ok s) :
    Builtin.isDefinable s = true ↔ TargetStays σ (.define t v) := by
  cases t with
  | var x => exact passes_iff rfl h
  | call f args =>
    obtain ⟨cs, hcs, -, rfl⟩ := (substitute_eq_ok_iff rfl).1 h
    exact all_isVar_of_substitute ht hcs
  | _ => cases ht

/-- A node over substituted subexpressions has a legal target exactly where its target stays
one. -/
theorem legalTarget_withChildren {e : Expr R} {cs : List (Expr R)} (he : LegalTarget e)
    (h : List.Forall₂ (fun c c' => c.substitute σ = .ok c') e.children cs) :
    LegalTarget (e.withChildren cs) ↔ TargetStays σ e := by
  cases e with
  | define t v =>
    obtain _ | ⟨ht, _ | ⟨_, _ | _⟩⟩ := h
    exact isDefinable_of_substitute he ht
  | undefine t =>
    obtain _ | ⟨ht, _ | _⟩ := h
    exact isVarOrCall_of_substitute he ht
  | increment t | decrement t =>
    obtain _ | ⟨ht, _ | _⟩ := h
    obtain ⟨x, rfl⟩ := isVar_iff.1 he
    exact passes_iff rfl ht
  | update op t v =>
    obtain _ | ⟨ht, _ | ⟨_, _ | _⟩⟩ := h
    obtain ⟨x, rfl⟩ := isVar_iff.1 he
    exact passes_iff rfl ht
  | _ => exact iff_of_true (legalTarget_of_not (hasTarget_withChildren _ cs)) trivial

/-! ## Whole expressions -/

/-- Where an expression and all that is put into it have legal targets, a substitution keeps
them legal exactly where every target of the expression stays one. -/
theorem legalTargets_of_substitute {t u : Expr R} (ht : t.Everywhere LegalTarget)
    (hσ : ∀ x a, σ x = some a → a.Everywhere LegalTarget) (h : t.substitute σ = .ok u) :
    u.Everywhere LegalTarget ↔ t.Everywhere (TargetStays σ) := by
  have hvar (x : String) {p : Expr R → Prop} (hp : p (.var x)) : (Expr.var x).Everywhere p :=
    everywhere_iff.2 ⟨hp, fun c hc => absurd hc List.not_mem_nil⟩
  refine substitute_rec (motive := fun t u => t.Everywhere LegalTarget →
    (u.Everywhere LegalTarget ↔ t.Everywhere (TargetStays σ))) ?free ?bound ?node h ht
  case free => exact fun x _ _ => iff_of_true (hvar x trivial) (hvar x trivial)
  case bound => exact fun x a hx _ => iff_of_true (hσ x a hx) (hvar x trivial)
  case node =>
    intro e cs _ _ hcs he
    -- The members of the node are legal again exactly where their targets stay.
    have hmembers : List.Forall₂ (fun c c' =>
        c'.Everywhere LegalTarget ↔ c.Everywhere (TargetStays σ)) e.children cs :=
      forall₂_imp_of_mem hcs fun c hc _ hc' => hc'.2 (he.child hc)
    rw [everywhere_iff, everywhere_iff (e := e),
      legalTarget_withChildren he.here (hcs.imp fun _ _ hc => hc.1),
      children_withChildren e hcs.length_eq.symm, forall_mem_iff_of_forall₂ hmembers]

/-! ## Expressions that are read -/

variable [Scalar R]

/-- Some tokens are read as the expression, with some functions defined. -/
def IsRead (e : Expr R) : Prop := ∃ U ts, parse U ts = .ok e

/-- A primary is read. -/
theorem isRead_primary {w : List (Token R)} {e : Expr R}
    (h : Grammar.IsPrimary FunctionTable.empty w e) : e.IsRead := by
  have hsigned : Grammar.IsSigned FunctionTable.empty w e := .power (.trailing (.primary h))
  exact ⟨FunctionTable.empty, w, hsigned.isAssignment.parse⟩

/-- The definition of a variable by a primary is read. -/
theorem isRead_define (x : String) {w : List (Token R)} {e : Expr R}
    (h : Grammar.IsPrimary FunctionTable.empty w e) : (Expr.define (.var x) e).IsRead := by
  have hx : Grammar.IsSigned (R := R) FunctionTable.empty [.name x] (.var x) :=
    .power (.trailing (.primary (.name x)))
  have hsigned : Grammar.IsSigned FunctionTable.empty w e := .power (.trailing (.primary h))
  have hdefine : Grammar.IsAssignment FunctionTable.empty ([.name x] ++ .operator .assign :: w)
      (.define (.var x) e) :=
    .assign (.operand (hx.isOperand _)) hsigned.isAssignment (.define rfl)
  exact ⟨FunctionTable.empty, _, hdefine.parse⟩

end Expr

/-! ## Bodies and arguments that are read -/

namespace FunctionDef

open SymbolicAlgebra.Expr (LegalTarget TargetStays legalTarget_of_wellFormedNode)

variable [Scalar R]

/-- What is read has legal targets. -/
theorem legalTargets_of_isRead {e : Expr R} (h : e.IsRead) : e.Everywhere LegalTarget := by
  obtain ⟨U, ts, h⟩ := h
  exact (wellFormed_of_parse h).imp fun _ => legalTarget_of_wellFormedNode

/-- Instantiation and targets. The body and the arguments of a function have been read. The
instantiated body has legal targets exactly where every target of the body stays one: a formal
argument that is updated has a variable for its actual argument, one that is defined has a
variable or a function head, one whose definition is removed a variable or a call, and one that
is an argument of a function head being defined a variable. -/
theorem legalTargets_of_instantiate {f : FunctionDef R} {args : List (Expr R)} {u : Expr R}
    (hbody : f.body.IsRead) (hargs : ∀ a ∈ args, a.IsRead) (h : f.instantiate args = .ok u) :
    u.Everywhere LegalTarget ↔ f.body.Everywhere (TargetStays (f.bindings args)) := by
  refine Expr.legalTargets_of_substitute (legalTargets_of_isRead hbody) ?_ h
  intro x a ha
  obtain ⟨p, hp, rfl⟩ := Bindings.exists_mem_of_ofPairs ha
  exact legalTargets_of_isRead (hargs _ (List.of_mem_zip hp).2)

/-- Of the function with the body `t := s` and the actual arguments `y` for `t` and three for `s`
the definition `y := 3` is made, because what stands for `t` is a variable again. -/
theorem legalTargets_of_instantiate_variable :
    let f : FunctionDef SignedFloat := ⟨"f", ["t", "s"], .define (.var "t") (.var "s")⟩
    let args : List (Expr SignedFloat) := [.var "y", .number 3]
    let u : Expr SignedFloat := .define (.var "y") (.number 3)
    f.body.IsRead ∧ (∀ a ∈ args, a.IsRead) ∧ f.instantiate args = .ok u ∧
      u.Everywhere LegalTarget := by
  intro f args u
  have hbody : f.body.IsRead := Expr.isRead_define "t" (.name "s")
  have hargs : ∀ a ∈ args, a.IsRead := by
    intro a ha
    rcases List.mem_pair.1 ha with rfl | rfl
    · exact Expr.isRead_primary (.name "y")
    · exact Expr.isRead_primary (.literal (.number 3))
  have hu : f.instantiate args = .ok u := rfl
  -- The only target of the body is its first formal argument.
  have hstays : f.body.Everywhere (TargetStays (f.bindings args)) := by
    refine Expr.everywhere_iff.2 ⟨?_, fun c hc => ?_⟩
    · intro a ha
      rw [← Option.some.inj ha]
      rfl
    · rcases List.mem_pair.1 hc with rfl | rfl <;>
        exact Expr.everywhere_iff.2 ⟨trivial, nofun⟩
  exact ⟨hbody, hargs, hu, (legalTargets_of_instantiate hbody hargs hu).2 hstays⟩

/-- Instantiation does not always keep targets legal. The body `t := 5` and the argument `3` are
read, and the instantiated body is the definition `3 := 5`, which the grammar refuses. -/
theorem not_legalTargets_of_instantiate :
    ¬ ∀ (f : FunctionDef SignedFloat) (args : List (Expr SignedFloat)) (u : Expr SignedFloat),
      f.body.IsRead → (∀ a ∈ args, a.IsRead) → args.length = f.arity →
        f.instantiate args = .ok u → u.Everywhere LegalTarget := by
  intro h
  let f : FunctionDef SignedFloat := ⟨"f", ["t"], .define (.var "t") (.number 5)⟩
  have hbody : f.body.IsRead := Expr.isRead_define "t" (.literal (.number 5))
  have hargs : ∀ a ∈ [Expr.number (3 : SignedFloat)], a.IsRead := by
    intro a ha
    rw [List.mem_singleton.1 ha]
    exact Expr.isRead_primary (.literal (.number 3))
  have hall := h f [.number 3] (.define (.number 3) (.number 5)) hbody hargs rfl rfl
  have htarget : Builtin.isDefinable (.number (3 : SignedFloat)) = true := hall.here
  cases htarget

end FunctionDef

end SymbolicAlgebra
