import SymbolicAlgebra.Proofs.FormulaGrammar
import SymbolicAlgebra.Proofs.NodeProperty
import SymbolicAlgebra.Proofs.Position

set_option autoImplicit false

/-!
# A part exchanged within a formula

What a formula means for the node above it depends little on its parts: a definition asks
whether its left side is a variable or a function head, a matrix asks for the lengths of its
rows, and a derivative asks for a variable. An operation or a literal somewhere within a
formula has no influence on any of these (`Expr.Alike`, `Expr.alike_replaceAt`), so the conditions
of the grammar survive when one is exchanged for another: `Grammar.Collected.set` for lists,
`Grammar.Called.set` for calls, and the same for assignments and trailing operators.
-/

namespace SymbolicAlgebra

variable {R : Type}

namespace Expr

/-! ## What the node above sees -/

/-- A change within an expression that is no variable: a target remains a target, and a row
keeps its length. -/
structure Alike (e s : Expr R) : Prop where
  /-- The target of a definition or an update remains one. -/
  target : KeepsTarget e s
  /-- The expression is no variable. -/
  notVar : e.isVar = false
  /-- A vector remains a vector of the same length, and nothing else becomes one. -/
  row : s.asVector?.map List.length = e.asVector?.map List.length

theorem KeepsTarget.refl (e : Expr R) : KeepsTarget e e := ⟨id, id, id⟩

/-- One changed member among others that stay. -/
theorem forall₂_set {r : Expr R → Expr R → Prop} (hr : ∀ e, r e e) {es : List (Expr R)}
    {i : Nat} {c c' : Expr R} (hc : es[i]? = some c) (h : r c c') :
    List.Forall₂ r es (es.set i c') := by
  induction es generalizing i with
  | nil => cases hc
  | cons e es ih =>
    cases i with
    | zero =>
      rw [← Option.some.inj hc] at h
      exact .cons h (List.forall₂_same.2 fun e _ => hr e)
    | succ i => exact .cons (hr e) (ih hc)

/-- Only a variable has no other subexpressions than variables. -/
theorem isVar_of_subexprAt? {e old : Expr R} {p : List Nat} (h : e.subexprAt? p = some old)
    (hold : old.isVar = false) : e.isVar = false := by
  cases e with
  | var x =>
    cases p with
    | nil => rwa [← Option.some.inj h] at hold
    | cons i p => cases h
  | _ => rfl

/-- Exchanging an operation or a literal within an expression changes nothing that the node
above sees. -/
theorem alike_replaceAt {e old new : Expr R} {p : List Nat} (h : e.subexprAt? p = some old)
    (htarget : old.isVarOrCall = false) (hold : old.asVector? = none)
    (hnew : new.asVector? = none) : Alike e (e.replaceAt p new) := by
  have hvar : old.isVar = false := by
    cases old with
    | var x => cases htarget
    | _ => rfl
  refine ⟨?_, isVar_of_subexprAt? h hvar, ?_⟩
  · induction p generalizing e with
    | nil =>
      rw [Option.some.inj h]
      exact keepsTarget_of_not htarget _
    | cons i p ih =>
      obtain ⟨c, hc, hp⟩ := subexprAt?_cons_eq_some_iff.1 h
      rw [replaceAt_cons hc]
      exact keepsTarget_withChildren (forall₂_set KeepsTarget.refl hc (ih hp))
  · cases p with
    | nil => rw [replaceAt_nil, hnew, Option.some.inj h, hold]
    | cons i p =>
      obtain ⟨c, hc, -⟩ := subexprAt?_cons_eq_some_iff.1 h
      rw [replaceAt_cons hc]
      cases e with
      | vector es =>
        change some (es.set i _).length = some es.length
        rw [List.length_set]
      | _ =>
        unfold withChild withChildren
        split <;> first | rfl | contradiction

/-! ## Lists with one changed member -/

section Lists

variable {es : List (Expr R)} {i : Nat} {c c' : Expr R}

theorem Alike.isVector_eq (h : Alike c c') : c'.isVector = c.isVector := by
  have hrow := h.row
  cases c <;> cases c' <;> first | rfl | cases hrow

/-- The members are still all vectors, or still not. -/
theorem Alike.readsAsMatrix_set (h : Alike c c') (hc : es[i]? = some c) :
    readsAsMatrix (es.set i c') = readsAsMatrix es := by
  have hall : (es.set i c').all isVector = es.all isVector := by
    induction es generalizing i with
    | nil => cases hc
    | cons e es ih =>
      cases i with
      | zero =>
        rw [Option.some.inj hc, List.set_cons_zero, List.all_cons, List.all_cons, h.isVector_eq]
      | succ i => rw [List.set_cons_succ, List.all_cons, List.all_cons, ih hc]
  have hempty : (es.set i c').isEmpty = es.isEmpty := by
    cases es with
    | nil => rfl
    | cons e es => cases i <;> rfl
  rw [readsAsMatrix, readsAsMatrix, hall, hempty]

/-- Rows that fit still fit. -/
theorem Alike.rowsFit_set (h : Alike c c') (hc : es[i]? = some c) (hfit : RowsFit es) :
    RowsFit (es.set i c') := by
  obtain ⟨n, hn⟩ := hfit
  refine ⟨n, fun row hrow => ?_⟩
  rcases List.mem_or_eq_of_mem_set hrow with hmem | heq
  · exact hn row hmem
  · -- The row that was there before had the same length.
    have hlength := h.row
    rw [← heq] at hlength
    cases c with
    | vector row' =>
      have hmem : Expr.vector row' ∈ es := List.mem_of_getElem? hc
      rw [Option.some.inj hlength]
      exact hn row' hmem
    | _ => cases hlength

end Lists

end Expr

namespace Grammar

open SymbolicAlgebra.Expr

variable {e c c' : Expr R} {es : List (Expr R)} {i : Nat}

/-! ## Conditions with one changed part -/

/-- A target may be exchanged for one that is alike. -/
theorem Assigned.withTarget {value : Expr R} {op : Operator} (h : Assigned c value op e)
    (ha : Alike c c') : e.children[0]? = some c ∧ Assigned c' value op (e.withChild 0 c') := by
  cases h with
  | define h => exact ⟨rfl, .define (ha.target.isDefinable h)⟩
  | add h => exact ⟨rfl, .add (ha.target.isVar h)⟩
  | sub h => exact ⟨rfl, .sub (ha.target.isVar h)⟩
  | mul h => exact ⟨rfl, .mul (ha.target.isVar h)⟩
  | div h => exact ⟨rfl, .div (ha.target.isVar h)⟩

/-- A value may be exchanged for any other. -/
theorem Assigned.withValue {target : Expr R} {op : Operator} (h : Assigned target c op e)
    (c' : Expr R) : e.children[1]? = some c ∧ Assigned target c' op (e.withChild 1 c') := by
  cases h with
  | define h => exact ⟨rfl, .define h⟩
  | add h => exact ⟨rfl, .add h⟩
  | sub h => exact ⟨rfl, .sub h⟩
  | mul h => exact ⟨rfl, .mul h⟩
  | div h => exact ⟨rfl, .div h⟩

/-- An operand with a trailing operator may be exchanged for one that is alike. -/
theorem Trailed.withOperand {op : Operator} (h : Trailed c op e) (ha : Alike c c') :
    e.children[0]? = some c ∧ Trailed c' op (e.withChild 0 c') := by
  cases h with
  | factorial => exact ⟨rfl, .factorial⟩
  | increment h => exact ⟨rfl, .increment (ha.target.isVar h)⟩
  | decrement h => exact ⟨rfl, .decrement (ha.target.isVar h)⟩

/-- A member of a list may be exchanged for one that is alike. -/
theorem Collected.withMember (h : Collected es e) (hc : es[i]? = some c) (ha : Alike c c') :
    e.children[i]? = some c ∧ Collected (es.set i c') (e.withChild i c') := by
  cases h with
  | matrix h hr =>
    exact ⟨hc, .matrix ((ha.readsAsMatrix_set hc).trans h) (ha.rowsFit_set hc hr)⟩
  | vector h => exact ⟨hc, .vector ((ha.readsAsMatrix_set hc).trans h)⟩

variable [Scalar R]

/-- The definition of a variable or a call is removed. -/
theorem undefineOf_eq {t : Expr R} (h : t.isVarOrCall = true) :
    Builtin.undefineOf t = .ok (.undefine t) := by
  cases t with
  | var x => rfl
  | call f args => rfl
  | _ => cases h

/-- An argument of a built-in function may be exchanged for one that is alike. The second
argument of a derivative is a variable and therefore not like any other expression. -/
theorem build_withArgument {f : String} {b : Builtin} (h : b.build f es = .ok e)
    (hc : es[i]? = some c) (ha : Alike c c') :
    e.children[i]? = some c ∧ b.build f (es.set i c') = .ok (e.withChild i c') := by
  unfold Builtin.build at h
  split at h
  -- The constructs with a condition on their arguments come first.
  case h_9 =>
    obtain ⟨hfit, rfl⟩ := matrixOf_eq_ok_iff.1 (mapError_eq_ok_iff.1 h)
    refine ⟨hc, ?_⟩
    change (matrixOf (es.set i c')).mapError _ = _
    rw [matrixOf_eq_ok_iff.2 ⟨ha.rowsFit_set hc hfit, rfl⟩]
    rfl
  case h_10 t v =>
    unfold Builtin.defineTo at h
    split at h
    · rename_i hdefinable
      obtain rfl := Except.ok.inj h
      rcases i with _ | _ | i
      · obtain rfl := Option.some.inj hc
        exact ⟨rfl, if_pos (ha.target.isDefinable hdefinable)⟩
      · exact ⟨hc, if_pos hdefinable⟩
      · cases hc
    · cases h
  case h_11 t =>
    rcases i with _ | i
    · obtain rfl := Option.some.inj hc
      have htarget : t.isVarOrCall = true := by
        cases t <;> first | rfl | cases h
      rw [undefineOf_eq htarget] at h
      obtain rfl := Except.ok.inj h
      exact ⟨rfl, undefineOf_eq (ha.target.isVarOrCall htarget)⟩
    · cases hc
  case h_18 u x =>
    rcases i with _ | _ | i
    · cases x with
      | var name =>
        obtain rfl := Except.ok.inj h
        exact ⟨hc, rfl⟩
      | _ => cases h
    · obtain rfl := Option.some.inj hc
      have hvar := ha.notVar
      cases x with
      | var name => cases hvar
      | _ => cases h
    · cases hc
  case h_19 => cases h
  -- The others take as many arguments as they have direct subexpressions.
  all_goals
    obtain rfl := Except.ok.inj h
    first
    | exact ⟨hc, rfl⟩
    | rcases i with _ | _ | _ | _ | i <;> exact ⟨hc, rfl⟩

/-- An argument of a call may be exchanged for one that is alike. -/
theorem Called.withArgument {U : FunctionTable R} {f : String} (h : Called U f es e)
    (hc : es[i]? = some c) (ha : Alike c c') :
    e.children[i]? = some c ∧ Called U f (es.set i c') (e.withChild i c') := by
  cases h with
  | builtin hb hn he =>
    obtain ⟨hchild, he⟩ := build_withArgument he hc ha
    exact ⟨hchild, .builtin hb (by rwa [List.length_set]) he⟩
  | known hb hu =>
    refine ⟨hc, .known (fun b hf => ?_) ?_⟩
    · rw [List.length_set]
      exact hb b hf
    · rwa [List.length_set]
  | unknown hb hu => exact ⟨hc, .unknown hb hu⟩

end Grammar

end SymbolicAlgebra
