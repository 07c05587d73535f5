import Mathlib.Logic.Relation
import SymbolicAlgebra.Proofs.SubstitutionRun
import SymbolicAlgebra.Scalar.SignedFloat

set_option autoImplicit false

/-!
# The laws of substitution

A substitution puts expressions in the place of variables, all at once. Two laws say what that
means (`Expr.substitute_simultaneous`). The variables of the outcome are the free ones of the
expression and those that the expressions put in bring with them
(`Expr.containsVar_of_substitute`). And two substitutions one after the other are one substitution
(`Bindings.compose`), which puts in what the second one makes of the expressions of the first one
(`Expr.substitute_bind_eq_ok_iff`).

A substitution can fail, at a matrix whose rows come to differ in length. The second law holds
with its failures: a matrix in which the first substitution leaves rows of different lengths
has them after the second one as well (`Expr.rowsFit_of_substitute`), so nothing that goes wrong on
the way is mended later.
-/

namespace SymbolicAlgebra

variable {R : Type}

/-! ## Two substitutions in one -/

namespace Bindings

/-- At the variable, `ρ` puts in what `τ` makes of what `σ` puts in, if `τ` makes anything of
it; a variable that `σ` leaves free is handed to `τ`. -/
def Composes (σ τ ρ : Bindings R) (x : String) : Prop :=
  (σ x = none → ρ x = τ x) ∧ ∀ a b, σ x = some a → a.substitute τ = .ok b → ρ x = some b

/-- First `σ`, then `τ`, in the expression `t`: a variable of `t` that `σ` binds is bound to
what `τ` makes of the expression, where it makes anything of it, and any other name to what `τ`
binds it to. -/
def compose (σ τ : Bindings R) (t : Expr R) : Bindings R := fun x =>
  match σ x, t.containsVar x with
  | some a, true =>
    match a.substitute τ with
    | .ok b => some b
    | .error _ => τ x
  | _, _ => τ x

/-- The substitution composed for an expression is the two in one at each of its variables. -/
theorem composes_compose (σ τ : Bindings R) {t : Expr R} {x : String}
    (hx : t.containsVar x = true) : Composes σ τ (σ.compose τ t) x := by
  constructor
  · intro hfree
    rw [compose, hfree]
  · intro a b ha hb
    rw [compose, ha, hx]
    dsimp only
    rw [hb]

end Bindings

namespace Expr

variable {σ τ ρ : Bindings R}

/-! ## Variables -/

@[simp] theorem containsVar_var {x n : String} :
    (Expr.var x : Expr R).containsVar n = true ↔ x = n := by
  rw [containsVar, beq_iff_eq]

/-- A node that is no variable has the variables of its direct subexpressions. -/
theorem containsVar_iff {e : Expr R} (h : e.isVar = false) {n : String} :
    e.containsVar n = true ↔ ∃ c ∈ e.children, c.containsVar n = true := by
  rw [containsVar_eq_any h, List.any_eq_true]

/-- The name is a variable of what `σ` makes of the expression: a variable of the expression
that stays free, or one of an expression that is put in the place of a variable. -/
def BringsVar (σ : Bindings R) (t : Expr R) (n : String) : Prop :=
  σ n = none ∧ t.containsVar n = true ∨
    ∃ y a, t.containsVar y = true ∧ σ y = some a ∧ a.containsVar n = true

/-- What a substitution brings into a node it brings into a direct subexpression. -/
theorem bringsVar_iff {e : Expr R} (h : e.isVar = false) {n : String} :
    BringsVar σ e n ↔ ∃ c ∈ e.children, BringsVar σ c n := by
  simp only [BringsVar, containsVar_iff h]
  constructor
  · rintro (⟨hfree, c, hc, hn⟩ | ⟨y, a, ⟨c, hc, hy⟩, ha, hn⟩)
    · exact ⟨c, hc, .inl ⟨hfree, hn⟩⟩
    · exact ⟨c, hc, .inr ⟨y, a, hy, ha, hn⟩⟩
  · rintro ⟨c, hc, ⟨hfree, hn⟩ | ⟨y, a, hy, ha, hn⟩⟩
    · exact .inl ⟨hfree, c, hc, hn⟩
    · exact .inr ⟨y, a, ⟨c, hc, hy⟩, ha, hn⟩

/-- The variables after a substitution are those that it leaves free and those that come with
the expressions put in. -/
theorem containsVar_of_substitute {t u : Expr R} (h : t.substitute σ = .ok u) (n : String) :
    u.containsVar n = true ↔ BringsVar σ t n := by
  refine substitute_rec (motive := fun t u => u.containsVar n = true ↔ BringsVar σ t n)
    ?free ?bound ?node h
  case free =>
    intro x hx
    simp only [BringsVar, containsVar_var]
    constructor
    · rintro rfl
      exact .inl ⟨hx, rfl⟩
    · rintro (⟨-, rfl⟩ | ⟨y, a, rfl, ha, -⟩)
      · rfl
      · rw [hx] at ha
        cases ha
  case bound =>
    intro x a hx
    simp only [BringsVar, containsVar_var]
    constructor
    · intro hn
      exact .inr ⟨x, a, rfl, hx, hn⟩
    · rintro (⟨hfree, rfl⟩ | ⟨y, b, rfl, hb, hn⟩)
      · rw [hx] at hfree
        cases hfree
      · rw [hx] at hb
        rw [Option.some.inj hb]
        exact hn
  case node =>
    intro e cs hvar _ hcs
    rw [containsVar_iff ((isVar_withChildren e cs).trans hvar),
      children_withChildren e hcs.length_eq.symm, bringsVar_iff hvar]
    exact exists_mem_iff_of_forall₂ (hcs.imp fun _ _ hc => hc.2)

/-! ## Rows -/

/-- What a substitution makes of a vector is a vector of the same length. -/
theorem exists_vector_of_substitute {es : List (Expr R)} {u : Expr R}
    (h : (Expr.vector es).substitute σ = .ok u) :
    ∃ ds, u = .vector ds ∧ ds.length = es.length := by
  obtain ⟨ds, hds, -, rfl⟩ := (substitute_eq_ok_iff rfl).1 h
  exact ⟨ds, rfl, hds.length_eq.symm⟩

/-- Rows that fit after a substitution did so before. -/
theorem rowsFit_of_substitute {rows rows' : List (Expr R)}
    (h : List.Forall₂ (fun r r' => r.substitute σ = .ok r') rows rows') (hfit : RowsFit rows') :
    RowsFit rows := by
  obtain ⟨n, hn⟩ := hfit
  refine ⟨n, fun es hes => ?_⟩
  obtain ⟨r', hmem, hr'⟩ := exists_mem_of_forall₂ h hes
  obtain ⟨ds, rfl, hlen⟩ := exists_vector_of_substitute hr'
  rw [← hlen]
  exact hn ds hmem

/-! ## One substitution after the other -/

/-- Every expression that `σ` puts into `t` allows the substitution `τ`. -/
def AllowsAfter (σ τ : Bindings R) (t : Expr R) : Prop :=
  ∀ x a, t.containsVar x = true → σ x = some a → ∃ b, a.substitute τ = .ok b

theorem allowsAfter_var {x : String} :
    AllowsAfter σ τ (.var x) ↔ ∀ a, σ x = some a → ∃ b, a.substitute τ = .ok b := by
  constructor
  · exact fun hall a ha => hall x a (containsVar_var.2 rfl) ha
  · intro hall y a hy ha
    rw [← containsVar_var.1 hy] at ha
    exact hall a ha

/-- What is put into a node is put into its direct subexpressions. -/
theorem allowsAfter_iff {e : Expr R} (h : e.isVar = false) :
    AllowsAfter σ τ e ↔ ∀ c ∈ e.children, AllowsAfter σ τ c := by
  simp only [AllowsAfter, containsVar_iff h]
  constructor
  · intro hall c hc x a hx ha
    exact hall x a ⟨c, hc, hx⟩ ha
  · rintro hall x a ⟨c, hc, hx⟩ ha
    exact hall c hc x a hx ha

/-- Two lists are related through a list between them exactly where their members are. -/
theorem exists_forall₂_iff {α β γ : Type} {p : α → β → Prop} {q : β → γ → Prop} {as : List α}
    {cs : List γ} :
    (∃ bs, List.Forall₂ p as bs ∧ List.Forall₂ q bs cs) ↔
      List.Forall₂ (Relation.Comp p q) as cs := by
  constructor
  · rintro ⟨bs, hp, hq⟩
    induction hp generalizing cs with
    | nil =>
      cases hq
      exact .nil
    | cons hab _ ih =>
      cases hq with
      | cons hbc hq => exact .cons ⟨_, hab, hbc⟩ (ih hq)
  · intro h
    induction h with
    | nil => exact ⟨[], .nil, .nil⟩
    | cons hac _ ih =>
      obtain ⟨b, hab, hbc⟩ := hac
      obtain ⟨bs, hp, hq⟩ := ih
      exact ⟨b :: bs, .cons hab hp, .cons hbc hq⟩

/-- A variable that the first substitution leaves free is the business of the second one, and
of what the first one puts in, the second one makes what the two in one put in. -/
theorem substitute_bind_var {x : String} {w : Expr R} (h : Bindings.Composes σ τ ρ x) :
    (Expr.var x).substitute σ >>= substitute τ = .ok w ↔
      AllowsAfter σ τ (.var x) ∧ (Expr.var x).substitute ρ = .ok w := by
  obtain ⟨hfree, hbound⟩ := h
  rw [substitute_var σ, substitute_var ρ, allowsAfter_var]
  change ((σ x).getD (.var x)).substitute τ = _ ↔ _
  cases hx : σ x with
  | none =>
    rw [Option.getD_none, substitute_var, hfree hx]
    simp
  | some a =>
    rw [Option.getD_some]
    cases ha : a.substitute τ with
    | error y => simp [ha]
    | ok b => simp [ha, hbound a b hx ha]

/-- Of a node that is no variable, the second substitution makes the node over what the two
make of its direct subexpressions. -/
theorem substitute_bind_node {e w : Expr R} (h : e.isVar = false) :
    e.substitute σ >>= substitute τ = .ok w ↔
      ∃ ds, List.Forall₂ (fun c d => c.substitute σ >>= substitute τ = .ok d) e.children ds ∧
        (e.isMatrix = true → RowsFit ds) ∧ w = e.withChildren ds := by
  have hcomp : (fun c d : Expr R => c.substitute σ >>= substitute τ = .ok d) =
      Relation.Comp (fun c c' => c.substitute σ = .ok c')
        (fun c' d => c'.substitute τ = .ok d) := by
    funext c d
    exact propext bind_eq_ok_iff
  simp only [bind_eq_ok_iff (x := e.substitute σ), substitute_eq_ok_iff h, hcomp,
    ← exists_forall₂_iff]
  constructor
  · rintro ⟨_, ⟨cs, hcs, -, rfl⟩, hw⟩
    have hlen : cs.length = e.children.length := hcs.length_eq.symm
    obtain ⟨ds, hds, hfit, rfl⟩ :=
      (substitute_eq_ok_iff ((isVar_withChildren e cs).trans h)).1 hw
    rw [children_withChildren e hlen] at hds
    rw [isMatrix_withChildren] at hfit
    exact ⟨ds, ⟨cs, hcs, hds⟩, hfit,
      withChildren_withChildren hlen (hds.length_eq.symm.trans hlen)⟩
  · rintro ⟨ds, ⟨cs, hcs, hds⟩, hfit, rfl⟩
    have hlen : cs.length = e.children.length := hcs.length_eq.symm
    refine ⟨e.withChildren cs,
      ⟨cs, hcs, fun hm => rowsFit_of_substitute hds (hfit hm), rfl⟩, ?_⟩
    refine (substitute_eq_ok_iff ((isVar_withChildren e cs).trans h)).2 ⟨ds, ?_, ?_, ?_⟩
    · rw [children_withChildren e hlen]
      exact hds
    · rw [isMatrix_withChildren]
      exact hfit
    · exact (withChildren_withChildren hlen (hds.length_eq.symm.trans hlen)).symm

/-- Two substitutions one after the other are the two in one, and succeed exactly where the
second one does in everything that the first one puts in and the two in one do. -/
theorem substitute_bind_eq_ok_iff {t w : Expr R}
    (hρ : ∀ x, t.containsVar x = true → Bindings.Composes σ τ ρ x) :
    t.substitute σ >>= substitute τ = .ok w ↔
      AllowsAfter σ τ t ∧ t.substitute ρ = .ok w := by
  induction t using Expr.induction generalizing w with
  | step e ih =>
    cases hvar : e.isVar with
    | true =>
      obtain ⟨x, rfl⟩ := isVar_iff.1 hvar
      exact substitute_bind_var (hρ x (containsVar_var.2 rfl))
    | false =>
      rw [substitute_bind_node hvar, substitute_eq_ok_iff hvar, allowsAfter_iff hvar]
      -- The members decide: the matrix of the outcome is the same on both sides.
      have hmem : ∀ c ∈ e.children, ∀ d, c.substitute σ >>= substitute τ = .ok d ↔
          AllowsAfter σ τ c ∧ c.substitute ρ = .ok d := by
        intro c hc d
        refine ih c hc fun x hx => hρ x ?_
        exact (containsVar_iff hvar).2 ⟨c, hc, hx⟩
      constructor
      · rintro ⟨ds, hds, hw⟩
        have hboth := forall₂_imp_of_mem hds fun c hc d hd => (hmem c hc d).1 hd
        obtain ⟨hall, hds⟩ := (List.forall₂_and_left _ _).1 hboth
        exact ⟨hall, ds, hds, hw⟩
      · rintro ⟨hall, ds, hds, hw⟩
        refine ⟨ds, forall₂_imp_of_mem hds fun c hc d hd => ?_, hw⟩
        exact (hmem c hc d).2 ⟨hall c hc, hd⟩

/-! ## Both laws -/

/-- Substitution is simultaneous. A name is a variable of the outcome exactly where it is a
variable of the expression that stays free, or a variable of an expression put in the place of
a variable. And two substitutions one after the other succeed exactly where the second one does
in every expression that the first one puts in and their composition does in the whole; they
give what the composition gives. -/
theorem substitute_simultaneous (σ τ : Bindings R) (t : Expr R) :
    (∀ u, t.substitute σ = .ok u → ∀ n, u.containsVar n = true ↔
      σ n = none ∧ t.containsVar n = true ∨
        ∃ y a, t.containsVar y = true ∧ σ y = some a ∧ a.containsVar n = true) ∧
    ∀ w, t.substitute σ >>= substitute τ = .ok w ↔
      (∀ x a, t.containsVar x = true → σ x = some a → ∃ b, a.substitute τ = .ok b) ∧
        t.substitute (σ.compose τ t) = .ok w :=
  ⟨fun _ h n => containsVar_of_substitute h n,
    fun _ => substitute_bind_eq_ok_iff fun _ hx => Bindings.composes_compose σ τ hx⟩

/-- In the matrix with the rows `{x, y}` and `r`, the variables `x` and `y` change places while a
vector with `x` becomes the second row; then `x` becomes two. The row put in brings `x` along,
and both steps are one substitution, in which only the `x` of that row and the former `y` become
two. -/
theorem substitute_simultaneous_rows :
    let t : Expr SignedFloat := .matrix [.vector [.var "x", .var "y"], .var "r"]
    let σ := Bindings.ofPairs
      [("x", .var "y"), ("y", .var "x"), ("r", .vector [.var "x", Expr.one])]
    let τ := Bindings.ofPairs [("x", Expr.two)]
    let u : Expr SignedFloat := .matrix [.vector [.var "y", .var "x"], .vector [.var "x", .one]]
    let w : Expr SignedFloat := .matrix [.vector [.var "y", .two], .vector [.two, .one]]
    t.substitute σ = .ok u ∧ u.containsVar "x" = true ∧
      t.substitute σ >>= substitute τ = .ok w ∧ t.substitute (σ.compose τ t) = .ok w := by
  intro t σ τ u w
  have hu : t.substitute σ = .ok u := rfl
  have hw : t.substitute σ >>= substitute τ = .ok w := rfl
  obtain ⟨hvars, hcompose⟩ := substitute_simultaneous σ τ t
  have hx : u.containsVar "x" = true :=
    (hvars u hu "x").2 (.inr ⟨"r", .vector [.var "x", .one], rfl, rfl, rfl⟩)
  exact ⟨hu, hx, hw, ((hcompose w).1 hw).2⟩

end Expr

end SymbolicAlgebra
