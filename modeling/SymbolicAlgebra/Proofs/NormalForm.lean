import SymbolicAlgebra.Proofs.Position
import SymbolicAlgebra.Scalar.SignedFloat

set_option autoImplicit false

/-!
# Simplified forms are normal forms

An expression is in normal form where no rule applies anywhere in it and all its matrices
keep the shape rule (`Expr.Normal`). Simplification gives normal forms (`normal_of_simplified`) and
leaves them alone (`Normal.simplified_eq_self`), whatever the scalars are: the rules may turn an
expression round and round, but a run ends only where none of them applies.

The outcome depends on a subexpression only through its own outcome (`simplified_replaceAt`). So a
part of an expression may be simplified beforehand, or wrapped for simplification, at any position,
without a change of the outcome (`simplified_compositional`).
-/

namespace SymbolicAlgebra.Expr

variable {R : Type} [Scalar R]

/-! ## Normal forms -/

/-- No rule applies to the node or anywhere below it, and every matrix keeps the shape
rule. -/
inductive Normal : Expr R → Prop where
  /-- A node that keeps the shape rule and to which no rule applies, over normal forms. -/
  | node (e : Expr R) (below : ∀ c ∈ e.children, Normal c)
    (shape : e.rebuild SimplifyError.shape e.children = .ok e)
    (irreducible : Rule.reduce? e = .ok none) : Normal e

/-- No rule applies to a normal form. -/
theorem Normal.reduce?_eq {e : Expr R} (h : Normal e) : Rule.reduce? e = .ok none := by
  obtain ⟨_, _, _, irreducible⟩ := h
  exact irreducible

/-- The subexpressions of a normal form are normal forms. -/
theorem Normal.subexprAt? {t e : Expr R} {p : List Nat} (h : Normal t)
    (hp : t.subexprAt? p = some e) : Normal e := by
  induction p generalizing t with
  | nil =>
    rw [← Option.some.inj hp]
    exact h
  | cons i p ih =>
    obtain ⟨c, hc, hp⟩ := subexprAt?_cons_eq_some_iff.1 hp
    obtain ⟨_, below, _, _⟩ := h
    exact ih (below c (List.mem_of_getElem? hc)) hp

/-- Every expression of the second list is in normal form where every pair is. -/
theorem normal_of_forall₂ {es ss : List (Expr R)}
    (h : List.Forall₂ (fun _ s => Normal s) es ss) : ∀ c ∈ ss, Normal c := by
  induction h with
  | nil =>
    intro c hc
    cases hc
  | cons hs _ ih =>
    intro c hc
    rcases List.mem_cons.1 hc with rfl | hc
    · exact hs
    · exact ih c hc

/-- Simplification gives normal forms. -/
theorem normal_of_simplified {e s : Expr R} (h : e.simplified = .ok s) : Normal s := by
  refine simplified_rec (motive := fun _ s => Normal s) ?_ ?_ h
  · intro e cs node hcs hb hr
    obtain rfl := eq_withChildren_of_rebuild hb
    have hlen : cs.length = e.children.length := hcs.length_eq.symm
    have hchildren : (e.withChildren cs).children = cs := children_withChildren e hlen
    refine .node _ ?_ ?_ hr
    · rw [hchildren]
      exact normal_of_forall₂ hcs
    · rw [hchildren, rebuild_withChildren hlen hlen]
      exact hb
  · intro e cs node next s _ _ _ hs
    exact hs

/-- Simplification leaves a normal form alone. -/
theorem Normal.simplified_eq_self {e : Expr R} (h : Normal e) : e.simplified = .ok e := by
  induction h with
  | node e below shape irreducible ih =>
    refine simplified_eq_ok_iff.2 ⟨e, ?_, .inl ⟨irreducible, rfl⟩⟩
    refine mapChildren_eq_ok_iff.2 ⟨e.children, ?_, shape⟩
    exact List.forall₂_same.2 ih

/-- A simplified form is its own simplified form. -/
theorem simplified_of_simplified {e s : Expr R} (h : e.simplified = .ok s) :
    s.simplified = .ok s :=
  (normal_of_simplified h).simplified_eq_self

/-! ## Simplifying a part first -/

/-- The outcome depends on a direct subexpression only through its own outcome. -/
theorem simplified_replaceChild {t : Expr R} {g : Expr R → Expr R} {i : Nat}
    (h : ∀ c, t.children[i]? = some c → (g c).simplified = c.simplified) :
    (t.withChildren (t.children.modify i g)).simplified = t.simplified := by
  rw [simplified_eq, simplified_eq t, mapChildren_replaceChild h]

/-- The outcome depends on the subexpression at a position only through its own outcome. -/
theorem simplified_replaceAt {t e new : Expr R} {p : List Nat}
    (hp : t.subexprAt? p = some e) (h : new.simplified = e.simplified) :
    (t.replaceAt p new).simplified = t.simplified := by
  induction p generalizing t with
  | nil =>
    rw [replaceAt_nil, h, Option.some.inj hp]
  | cons i p ih =>
    obtain ⟨c, hc, hp⟩ := subexprAt?_cons_eq_some_iff.1 hp
    rw [replaceAt]
    apply simplified_replaceChild
    intro c' hc'
    rw [hc] at hc'
    rw [← Option.some.inj hc']
    exact ih hp

/-- A node that asks for simplification has the outcome of its operand. -/
theorem simplified_simplify (e : Expr R) : (Expr.simplify e).simplified = e.simplified := by
  rw [simplified_eq, mapChildren]
  have hm : (Expr.simplify e).children.mapM simplified =
      (do let s ← e.simplified; pure [s] : Except SimplifyError (List (Expr R))) := by
    rw [children, List.mapM_cons, List.mapM_nil]
    rfl
  rw [hm]
  cases h : e.simplified with
  | error x => rfl
  | ok s => exact simplified_of_simplified h

/-- Simplification is compositional and therefore idempotent: a part may be simplified
beforehand or be marked for simplification, at any position and whether the whole can be
simplified or not, and a simplified form is its own simplified form. -/
theorem simplified_compositional (t : Expr R) :
    (∀ p e e', t.subexprAt? p = some e → e.simplified = .ok e' →
      (t.replaceAt p e').simplified = t.simplified) ∧
    (∀ s, t.simplified = .ok s → s.simplified = .ok s) ∧
    (∀ p e, t.subexprAt? p = some e →
      (t.replaceAt p (.simplify e)).simplified = t.simplified) := by
  refine ⟨?_, ?_, ?_⟩
  · intro p e e' hp he
    apply simplified_replaceAt hp
    rw [he]
    exact simplified_of_simplified he
  · intro s hs
    exact simplified_of_simplified hs
  · intro p e hp
    exact simplified_replaceAt hp (simplified_simplify e)

/-- A double sign in a vector may be taken away beforehand. -/
theorem simplified_compositional_doubleSign :
    ((Expr.vector [.neg (.neg (.var "x")), .var "y"] : Expr SignedFloat).replaceAt [0]
      (.var "x")).simplified =
    (Expr.vector [.neg (.neg (.var "x")), .var "y"] : Expr SignedFloat).simplified := by
  have hx : (Expr.var "x" : Expr SignedFloat).simplified = .ok (.var "x") :=
    simplified_eq_ok_iff.2 ⟨_, rfl, .inl ⟨rfl, rfl⟩⟩
  have hneg : (Expr.neg (.var "x") : Expr SignedFloat).simplified = .ok (.neg (.var "x")) := by
    refine simplified_eq_ok_iff.2 ⟨_, ?_, .inl ⟨rfl, rfl⟩⟩
    exact mapChildren_eq_ok_iff.2 ⟨[.var "x"], .cons hx .nil, rfl⟩
  have hsign : (Expr.neg (.neg (.var "x")) : Expr SignedFloat).simplified = .ok (.var "x") := by
    refine simplified_eq_ok_iff.2 ⟨.neg (.neg (.var "x")), ?_, .inr ⟨_, rfl, hx⟩⟩
    exact mapChildren_eq_ok_iff.2 ⟨[.neg (.var "x")], .cons hneg .nil, rfl⟩
  exact (simplified_compositional _).1 [0] (.neg (.neg (.var "x"))) (.var "x") rfl hsign

end SymbolicAlgebra.Expr
