import SymbolicAlgebra.Proofs.SimplifyRun
import SymbolicAlgebra.Scalar.SignedFloat
import SymbolicAlgebra.Typing.Infer

set_option autoImplicit false

/-!
# Types under more parameters

An expression is typed under the parameters that are known. When more of them become known
(`Typing.Extends`), an undefined type may turn out to be any type, or the expression may turn out
to have none; a type that was definite stays, and a mismatch is not mended
(`Expr.resultType_of_extends`).

The relation behind this is read backwards: whatever is typed under more parameters was
typed before, with the same type or with the undefined one (`Typing.Sharpens`, and
`Typing.Refines` for outcomes). Stated in this direction it passes through the steps of type
inference one after the other.
-/

namespace SymbolicAlgebra

namespace Typing

variable {R : Type} {α β : Type}

/-- The table `P'` gives values only to names that have none in `P` and that are no named
constants; everything else is as in `P`. -/
def Extends (P P' : Parameters R) : Prop :=
  ∀ x, (P.get? x).isSome = true ∨ NamedConstant.isKnown x = true → P'.get? x = P.get? x

/-! ## Types and outcomes that become known better -/

/-- The first type is undefined or the second one is the same. -/
def Sharpens (t t' : ResultType) : Prop := t = .undefined ∨ t' = t

/-- Where the second outcome is a success, so is the first one, and their values are
related. -/
def Refines (rel : α → α → Prop) (o o' : Except TypeMismatch α) : Prop :=
  ∀ a', o' = .ok a' → ∃ a, o = .ok a ∧ rel a a'

theorem Sharpens.refl (t : ResultType) : Sharpens t t := .inr rfl

theorem refines_ok {rel : α → α → Prop} {a a' : α} (h : rel a a') :
    Refines rel (.ok a) (.ok a') := by
  intro b hb
  rw [← Except.ok.inj hb]
  exact ⟨a, rfl, h⟩

/-- Nothing is asked of the first outcome where the second one is a mismatch. -/
theorem refines_error {rel : α → α → Prop} {o : Except TypeMismatch α} {x : TypeMismatch} :
    Refines rel o (.error x) :=
  nofun

/-- An undefined type is sharpened by every outcome. -/
theorem refines_undefined (o : Outcome) : Refines Sharpens (.ok .undefined) o :=
  fun _ _ => ⟨_, rfl, .inl rfl⟩

theorem refines_self (o : Outcome) : Refines Sharpens o o :=
  fun t ht => ⟨t, ht, .refl t⟩

/-- A step of type inference goes on with related values. -/
theorem Refines.bind {rel : α → α → Prop} {rel' : β → β → Prop}
    {o o' : Except TypeMismatch α} {f f' : α → Except TypeMismatch β}
    (h : Refines rel o o') (hf : ∀ a a', rel a a' → Refines rel' (f a) (f' a')) :
    Refines rel' (o >>= f) (o' >>= f') := by
  intro b' hb'
  obtain ⟨a', ha', hf'⟩ := Expr.bind_eq_ok_iff.1 hb'
  obtain ⟨a, rfl, hr⟩ := h a' ha'
  exact hf a a' hr b' hf'

/-! ## Nodes with a fixed number of operands -/

theorem refines_unaryOutcome (op : UnaryOp) {t t' : ResultType} (h : Sharpens t t') :
    Refines Sharpens (unaryOutcome op t) (unaryOutcome op t') := by
  rcases h with rfl | rfl
  · exact refines_undefined _
  · exact refines_self _

/-- An undefined operand makes the operation undefined, on either side. -/
theorem refines_operands {f : ResultType → ResultType → Outcome}
    (hf : ∀ l r, l = .undefined ∨ r = .undefined → f l r = .ok .undefined)
    {l l' r r' : ResultType} (hl : Sharpens l l') (hr : Sharpens r r') :
    Refines Sharpens (f l r) (f l' r') := by
  rcases hl with rfl | rfl
  · rw [hf _ _ (.inl rfl)]
    exact refines_undefined _
  · rcases hr with rfl | rfl
    · rw [hf _ _ (.inr rfl)]
      exact refines_undefined _
    · exact refines_self _

theorem refines_binaryOutcome (op : BinaryOp) {l l' r r' : ResultType} (hl : Sharpens l l')
    (hr : Sharpens r r') : Refines Sharpens (binaryOutcome op l r) (binaryOutcome op l' r') :=
  refines_operands (f := binaryOutcome op) (fun _ _ h => if_pos h) hl hr

theorem refines_rationalOutcome {l l' r r' : ResultType} (hl : Sharpens l l')
    (hr : Sharpens r r') : Refines Sharpens (rationalOutcome l r) (rationalOutcome l' r') :=
  refines_operands (f := rationalOutcome) (fun _ _ h => if_pos h) hl hr

theorem refines_conditionOutcome (node : String) {t t' : ResultType} (h : Sharpens t t') :
    Refines Sharpens (conditionOutcome node t) (conditionOutcome node t') := by
  rcases h with rfl | rfl
  · exact refines_undefined _
  · exact refines_self _

/-- An update is a number whether its value is one or is undefined. -/
theorem refines_updateOutcome (node : String) {t t' : ResultType} (h : Sharpens t t') :
    Refines Sharpens (updateOutcome node t) (updateOutcome node t') := by
  rcases h with rfl | rfl
  · unfold updateOutcome
    rw [if_pos (.inr rfl)]
    split
    · exact refines_self _
    · exact refines_error
  · exact refines_self _

/-! ## Lists -/

/-- The outcomes of the members of a list, one by one. -/
abbrev RefinesAll : List Outcome → List Outcome → Prop :=
  List.Forall₂ (Refines Sharpens)

/-- A check of members that lets undefined members pass goes through where it does so with
the members known better. -/
theorem refines_checkMembers {node : String} {accepts : ResultType → Bool}
    (hu : accepts .undefined = true) {os os' : List Outcome} (h : RefinesAll os os')
    (i : Nat) :
    Refines (fun _ _ => True) (checkMembers node accepts i os)
      (checkMembers node accepts i os') := by
  induction h generalizing i with
  | nil => exact refines_ok trivial
  | cons ho _ ih =>
    refine ho.bind fun t t' ht => ?_
    rcases ht with rfl | rfl
    · rw [if_pos hu]
      split
      · exact ih (i + 1)
      · exact refines_error
    · split
      · exact ih (i + 1)
      · exact refines_error

/-- What is known of the members seen so far, of the list and of the list with its members
known better: the common type, and whether there is an undefined member. Without an
undefined member both lists agree; with one, the common type may be known only in the
second list. -/
structure Agrees (s s' : Option ResultType × Bool) : Prop where
  /-- A common type of the first list is the one of the second list. -/
  common : s.1 = none ∨ s'.1 = s.1
  /-- A first list without an undefined member is like the second one. -/
  definite : s.2 = false → s' = s

/-- A member that is undefined in the first list only may settle the common type of the
second list. -/
theorem Agrees.undefined {c c' : Option ResultType} {u u' : Bool} {t' : ResultType}
    (h : Agrees (c, u) (c', u')) (hc : c' = none ∨ c' = some t') :
    Agrees (c, true) (some t', u') := by
  refine ⟨?_, nofun⟩
  rcases h.common with hn | he
  · exact .inl hn
  · rcases hc with rfl | rfl
    · exact .inl he.symm
    · exact .inr he

theorem refines_commonType {node : String} {os os' : List Outcome} (h : RefinesAll os os')
    (i : Nat) {c c' : Option ResultType} {u u' : Bool} (hs : Agrees (c, u) (c', u')) :
    Refines Agrees (commonType node i c u os) (commonType node i c' u' os') := by
  induction h generalizing i c c' u u' with
  | nil => exact refines_ok hs
  | cons ho _ ih =>
    refine ho.bind fun t t' ht => ?_
    by_cases ht' : t' = .undefined
    · -- An undefined member of the second list is one of the first.
      obtain rfl : t = .undefined := by
        rcases ht with rfl | rfl
        · rfl
        · exact ht'
      rw [if_pos rfl, if_pos ht']
      exact ih (i + 1) ⟨hs.common, nofun⟩
    · rw [if_neg ht']
      rcases ht with rfl | rfl
      · rw [if_pos rfl]
        cases c' with
        | none => exact ih (i + 1) (hs.undefined (.inl rfl))
        | some a =>
          dsimp only
          split
          · rename_i ha
            subst ha
            exact ih (i + 1) (hs.undefined (.inr rfl))
          · exact refines_error
      · rw [if_neg ht']
        cases c with
        | none =>
          cases c' with
          | none =>
            exact ih (i + 1) ⟨.inr rfl, fun hu => by rw [(Prod.mk.inj (hs.definite hu)).2]⟩
          | some a =>
            dsimp only
            split
            · rename_i ha
              subst ha
              exact ih (i + 1) ⟨.inr rfl, fun hu => nomatch (Prod.mk.inj (hs.definite hu)).1⟩
            · exact refines_error
        | some a =>
          obtain rfl : c' = some a := hs.common.resolve_left nofun
          dsimp only
          split
          · exact ih (i + 1) hs
          · exact refines_error

theorem refines_aggregateOutcome (op : Aggregate) {os os' : List Outcome}
    (h : RefinesAll os os') :
    Refines Sharpens (aggregateOutcome op os) (aggregateOutcome op os') := by
  unfold aggregateOutcome
  rw [h.length_eq]
  have hnone : Agrees (none, false) (none, false) := ⟨.inl rfl, fun _ => rfl⟩
  refine (refines_commonType h 1 hnone).bind ?_
  rintro ⟨c, u⟩ ⟨c', u'⟩ hs
  -- With an undefined member in the first list the first outcome is undefined or a mismatch.
  cases u with
  | false =>
    obtain ⟨rfl, rfl⟩ := Prod.mk.inj (hs.definite rfl)
    exact refines_self _
  | true =>
    rcases hs.common with hc | hc
    · obtain rfl : c = none := hc
      exact refines_undefined _
    · obtain rfl : c' = c := hc
      dsimp only
      split
      · exact refines_undefined _
      · exact refines_undefined _
      · split
        · exact refines_undefined _
        · exact refines_error
      · exact refines_error

end Typing

open Typing

namespace Expr

variable {R : Type} {P P' : Parameters R}

/-! ## Expressions -/

/-- More parameters sharpen the type of a variable. -/
theorem sharpens_varType (h : Extends P P') (x : String) :
    Sharpens (varType P x) (varType P' x) := by
  unfold varType
  cases hx : P.get? x with
  | some v =>
    rw [h x (.inl (by rw [hx]; rfl)), hx]
    exact .refl _
  | none =>
    cases hk : NamedConstant.isKnown x with
    | true =>
      rw [h x (.inr hk), hx]
      exact .refl _
    | false => exact .inl rfl

/-- Whatever is typed under more parameters was typed before, with the same type or with the
undefined one. -/
theorem refines_resultType (h : Extends P P') (e : Expr R) :
    Refines Sharpens (e.resultType P) (e.resultType P') := by
  induction e using Expr.induction with
  | step e ih =>
    have hall : ∀ es : List (Expr R), (∀ c ∈ es, c ∈ e.children) →
        RefinesAll (resultTypes P es) (resultTypes P' es) := by
      intro es hes
      rw [resultTypes_eq_map, resultTypes_eq_map, RefinesAll, List.forall₂_map_left_iff,
        List.forall₂_map_right_iff]
      exact List.forall₂_same.2 fun c hc => ih c (hes c hc)
    cases e with
    | number | truth | complex | quantity | undefine | simplify | derivative =>
      exact refines_self _
    | var x => exact refines_ok (sharpens_varType h x)
    | rational n d =>
      refine (ih n (by simp [children])).bind fun l l' hl => ?_
      exact (ih d (by simp [children])).bind fun r r' hr => refines_rationalOutcome hl hr
    | unary op a =>
      exact (ih a (by simp [children])).bind fun t t' ht => refines_unaryOutcome op ht
    | binary op a b =>
      refine (ih a (by simp [children])).bind fun l l' hl => ?_
      exact (ih b (by simp [children])).bind fun r r' hr => refines_binaryOutcome op hl hr
    | aggregate op args => exact refines_aggregateOutcome op (hall args fun _ hc => hc)
    | vector es =>
      exact (refines_checkMembers rfl (hall es fun _ hc => hc) 1).bind fun _ _ _ =>
        refines_self _
    | matrix rows =>
      exact (refines_checkMembers rfl (hall rows fun _ hc => hc) 1).bind fun _ _ _ =>
        refines_self _
    | call f args =>
      exact (refines_checkMembers rfl (hall args fun _ hc => hc) 1).bind fun _ _ _ =>
        refines_self _
    | define t v => exact (ih v (by simp [children])).bind fun _ _ _ => refines_self _
    | ifThen c t =>
      refine (ih c (by simp [children])).bind fun a a' ha => ?_
      refine (refines_conditionOutcome "if" ha).bind fun r r' hr => ?_
      exact (ih t (by simp [children])).bind fun _ _ _ => refines_ok hr
    | ifThenElse c t e =>
      refine (ih c (by simp [children])).bind fun a a' ha => ?_
      refine (refines_conditionOutcome "if" ha).bind fun r r' hr => ?_
      refine (ih t (by simp [children])).bind fun _ _ _ => ?_
      exact (ih e (by simp [children])).bind fun _ _ _ => refines_ok hr
    | forLoop i c s b =>
      refine (ih i (by simp [children])).bind fun _ _ _ => ?_
      refine (ih c (by simp [children])).bind fun a a' ha => ?_
      refine (refines_conditionOutcome "for" ha).bind fun r r' hr => ?_
      refine (ih s (by simp [children])).bind fun _ _ _ => ?_
      exact (ih b (by simp [children])).bind fun _ _ _ => refines_ok hr
    | whileLoop c b =>
      refine (ih c (by simp [children])).bind fun a a' ha => ?_
      refine (refines_conditionOutcome "while" ha).bind fun r r' hr => ?_
      exact (ih b (by simp [children])).bind fun _ _ _ => refines_ok hr
    | increment t =>
      exact (ih t (by simp [children])).bind fun a a' ha => refines_updateOutcome "++" ha
    | decrement t =>
      exact (ih t (by simp [children])).bind fun a a' ha => refines_updateOutcome "--" ha
    | update op t v =>
      exact (ih v (by simp [children])).bind fun a a' ha => refines_updateOutcome op.symbol ha

/-- Type inference is monotone in the parameters: an undefined type really is a deferred
one. When parameters get values that had none and are no named constants, an expression
with a mismatch still has one, and an expression with a definite type keeps the type or
gets a mismatch; it never gets another type. -/
theorem resultType_of_extends (h : Extends P P') (e : Expr R) :
    (∀ x, e.resultType P = .error x → ∃ y, e.resultType P' = .error y) ∧
    (∀ t, e.resultType P = .ok t → t ≠ .undefined →
      e.resultType P' = .ok t ∨ ∃ y, e.resultType P' = .error y) := by
  have hr := refines_resultType h e
  constructor
  · intro x hx
    cases ho : e.resultType P' with
    | error y => exact ⟨y, rfl⟩
    | ok t' =>
      obtain ⟨t, ht, _⟩ := hr t' ho
      rw [hx] at ht
      cases ht
  · intro t ht hne
    cases ho : e.resultType P' with
    | error y => exact .inr ⟨y, rfl⟩
    | ok t' =>
      obtain ⟨a, ha, hat⟩ := hr t' ho
      rw [ht] at ha
      obtain rfl := Except.ok.inj ha
      rw [hat.resolve_left hne]
      exact .inl rfl

/-- Once `x` is known to be a truth value, the vector with the elements `x` and `2` has a
mismatch or is still a vector, and the opposite of a truth value still has a mismatch. -/
theorem resultType_of_extends_truth :
    let P : Parameters SignedFloat := Table.empty
    let P' := P.insert "x" (.truth true)
    let e : Expr SignedFloat := .vector [.var "x", .two]
    Extends P P' ∧
      (e.resultType P' = .ok .vector ∨ ∃ y, e.resultType P' = .error y) ∧
      ∃ y, (Expr.neg (.truth false) : Expr SignedFloat).resultType P' = .error y := by
  intro P P' e
  have hx : NamedConstant.isKnown "x" = false := by decide +kernel
  have h : Extends P P' := by
    intro y hy
    have hne : y ≠ "x" := by
      rintro rfl
      rcases hy with hy | hy
      · cases hy
      · rw [hx] at hy
        cases hy
    rw [Table.get?_insert, if_neg hne]
  have hvar : varType P "x" = .undefined := by
    unfold varType
    rw [Table.get?_empty, hx]
    rfl
  have hvector : e.resultType P = .ok .vector := by
    simp only [e, resultType, resultTypes, hvar]
    rfl
  have hdefinite : ResultType.vector ≠ .undefined := by decide
  exact ⟨h, (resultType_of_extends h e).2 .vector hvector hdefinite,
    (resultType_of_extends h _).1 (.operand "-" .boolean) rfl⟩

end Expr

end SymbolicAlgebra
