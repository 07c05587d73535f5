import Mathlib.Data.List.Forall2
import SymbolicAlgebra.Simplify

set_option autoImplicit false

/-!
# What a run of simplification goes through

Simplification calls itself on the direct subexpressions of a node and, where a rule
applies to the rebuilt node, on what the rule gives. A property of all runs is proved by
following these calls. This module turns the calls into induction principles, so that no
later proof looks at the weight or at the monad of failures.

What this module delivers:

- `mapM_eq_ok_iff`, success of a traversal.
- `rebuild_eq_ok_iff`: rebuilding fails only where the rows of a matrix do not fit.
- `simplified_induct`, induction along the calls of simplification.
- `simplified_unary` and `simplified_binary`, simplification after the operands with its
  failures, and `simplified_unary_eq` and `simplified_binary_eq` where the operands succeed.
- `simplified_eq_ok_iff` and `simplified_rec`, the runs that succeed: what they go through,
  and how a relation between an expression and its simplified form is proved.
-/

namespace SymbolicAlgebra.Expr

/-! ## Traversals -/

/-- A traversal succeeds exactly where it succeeds at every member. -/
theorem mapM_eq_ok_iff {ε α β : Type} {f : α → Except ε β} {as : List α} {bs : List β} :
    as.mapM f = .ok bs ↔ List.Forall₂ (fun a b => f a = .ok b) as bs := by
  induction as generalizing bs with
  | nil =>
    rw [List.mapM_nil]
    constructor
    · intro h
      rw [← Except.ok.inj h]
      exact .nil
    · intro h
      cases h
      rfl
  | cons a as ih =>
    rw [List.mapM_cons, bind_eq_ok_iff]
    constructor
    · rintro ⟨b, ha, h⟩
      obtain ⟨cs, has, hcs⟩ := bind_eq_ok_iff.1 h
      rw [← Except.ok.inj hcs]
      exact .cons ha (ih.1 has)
    · intro h
      cases h with
      | cons ha has =>
        rw [ih.2 has]
        exact ⟨_, ha, rfl⟩

/-- What a member of the first list is related to stands in the second list. -/
theorem exists_mem_of_forall₂ {α β : Type} {p : α → β → Prop} {as : List α} {bs : List β}
    (h : List.Forall₂ p as bs) {a : α} (ha : a ∈ as) : ∃ b ∈ bs, p a b := by
  induction h with
  | nil => cases ha
  | cons hb _ ih =>
    rcases List.mem_cons.1 ha with rfl | ha
    · exact ⟨_, List.mem_cons_self, hb⟩
    · obtain ⟨b, hmem, hb⟩ := ih ha
      exact ⟨b, List.mem_cons_of_mem _ hmem, hb⟩

/-- Every result of a traversal is the one of some member. -/
theorem exists_mem_of_mapM_eq_ok {ε α β : Type} {f : α → Except ε β} {as : List α} {bs : List β}
    {b : β} (h : as.mapM f = .ok bs) (hb : b ∈ bs) : ∃ a ∈ as, f a = .ok b :=
  exists_mem_of_forall₂ (p := fun b a => f a = .ok b) (mapM_eq_ok_iff.1 h).flip hb

/-- A traversal that succeeds does so at every member. -/
theorem exists_eq_ok_of_mapM_eq_ok {ε α β : Type} {f : α → Except ε β} {as : List α}
    {bs : List β} {a : α} (h : as.mapM f = .ok bs) (ha : a ∈ as) : ∃ b, f a = .ok b := by
  obtain ⟨b, -, hb⟩ := exists_mem_of_forall₂ (mapM_eq_ok_iff.1 h) ha
  exact ⟨b, hb⟩

/-- A traversal fails with the failure of some member. -/
theorem exists_mem_of_mapM_eq_error {ε α β : Type} {f : α → Except ε β} {as : List α} {x : ε}
    (h : as.mapM f = .error x) : ∃ a ∈ as, f a = .error x := by
  induction as with
  | nil => cases h
  | cons a as ih =>
    rw [List.mapM_cons] at h
    cases ha : f a with
    | error y =>
      rw [ha] at h
      cases h
      exact ⟨a, List.mem_cons_self, ha⟩
    | ok b =>
      rw [ha] at h
      change (as.mapM f >>= fun bs => pure (b :: bs)) = .error x at h
      cases has : as.mapM f with
      | error y =>
        rw [has] at h
        cases h
        obtain ⟨a', hmem, ha'⟩ := ih has
        exact ⟨a', List.mem_cons_of_mem _ hmem, ha'⟩
      | ok bs =>
        rw [has] at h
        cases h

/-- A relation between two lists, member by member, follows from another one where it does so
for the members of the first list. -/
theorem forall₂_imp_of_mem {α β : Type} {p q : α → β → Prop} {as : List α} {bs : List β}
    (h : List.Forall₂ p as bs) (hpq : ∀ a ∈ as, ∀ b, p a b → q a b) : List.Forall₂ q as bs := by
  have hmem : List.Forall₂ (fun a b => a ∈ as ∧ p a b) as bs :=
    (List.forall₂_and_left (p := (· ∈ as)) _ _).2 ⟨fun a ha => ha, h⟩
  exact hmem.imp fun a b hab => hpq a hab.1 b hab.2

/-- Where the members of two lists agree on what is asked of them, all members of the one have
it exactly where all members of the other do. -/
theorem forall_mem_iff_of_forall₂ {α β : Type} {p : α → Prop} {q : β → Prop} {as : List α}
    {bs : List β} (h : List.Forall₂ (fun a b => q b ↔ p a) as bs) :
    (∀ b ∈ bs, q b) ↔ ∀ a ∈ as, p a := by
  induction h with
  | nil => simp
  | cons hab _ ih => simp only [List.forall_mem_cons, hab, ih]

/-- Where the members of two lists agree on what is asked of them, some member of the one has it
exactly where some member of the other does. -/
theorem exists_mem_iff_of_forall₂ {α β : Type} {p : α → Prop} {q : β → Prop} {as : List α}
    {bs : List β} (h : List.Forall₂ (fun a b => q b ↔ p a) as bs) :
    (∃ b ∈ bs, q b) ↔ ∃ a ∈ as, p a := by
  induction h with
  | nil => simp
  | cons hab _ ih => simp only [List.exists_mem_cons_iff, hab, ih]

variable {R : Type}

/-- A node is rebuilt from subexpressions unless it is a matrix and they are rows that do not
fit. -/
theorem rebuild_eq_ok_iff {ε : Type} {ofShape : ShapeError → ε} {e s : Expr R}
    {cs : List (Expr R)} :
    e.rebuild ofShape cs = .ok s ↔ (e.isMatrix = true → RowsFit cs) ∧ s = e.withChildren cs := by
  rw [rebuild]
  split
  · rename_i hm
    obtain ⟨rows, rfl⟩ : ∃ rows, e = .matrix rows := by
      cases e <;> first | exact ⟨_, rfl⟩ | cases hm
    rw [mapError_eq_ok_iff, matrixOf_eq_ok_iff]
    simp [isMatrix, withChildren]
  · rename_i hm
    simp [hm, eq_comm]

/-- Mapping the direct subexpressions succeeds exactly where every one of them has an
image and the node can be rebuilt from the images. -/
theorem mapChildren_eq_ok_iff {ε : Type} {ofShape : ShapeError → ε}
    {f : Expr R → Except ε (Expr R)} {e node : Expr R} :
    e.mapChildren ofShape f = .ok node ↔
      ∃ cs, List.Forall₂ (fun c c' => f c = .ok c') e.children cs ∧
        e.rebuild ofShape cs = .ok node := by
  rw [mapChildren, bind_eq_ok_iff]
  constructor
  · rintro ⟨cs, hcs, hnode⟩
    exact ⟨cs, mapM_eq_ok_iff.1 hcs, hnode⟩
  · rintro ⟨cs, hcs, hnode⟩
    exact ⟨cs, mapM_eq_ok_iff.2 hcs, hnode⟩

variable [Scalar R]

/-! ## Induction along the calls -/

/-- A direct subexpression is lighter than the node. -/
theorem weight_lt_of_mem_children {c e : Expr R} (h : c ∈ e.children) :
    c.weight < e.weight := by
  have hle : ∀ es : List (Expr R), c ∈ es → c.weight ≤ weightList es := by
    intro es hc
    induction es with
    | nil => cases hc
    | cons a es ih =>
      rw [weightList]
      rcases List.mem_cons.1 hc with rfl | hc
      · exact Nat.le_add_right _ _
      · exact Nat.le_add_left_of_le (ih hc)
  exact Nat.lt_of_le_of_lt (hle _ h) (weightList_children_lt e)

/-- Simplified members are not heavier than the members they come from. -/
theorem notHeavier_of_simplified {es ss : List (Expr R)}
    (h : List.Forall₂ (fun e s => e.simplified = .ok s) es ss) : NotHeavier ss es := by
  induction h with
  | nil => exact trivial
  | cons he _ ih => exact ⟨weight_simplified_le he, ih⟩

/-- Induction along the calls of simplification: what holds of an expression whenever it
holds of the direct subexpressions and of what a rule gives for the rebuilt node holds of
every expression. -/
theorem simplified_induct {motive : Expr R → Prop}
    (step : ∀ e : Expr R, (∀ c ∈ e.children, motive c) →
      (∀ node next, e.mapChildren .shape simplified = .ok node →
        Rule.reduce? node = .ok (some next) → motive next) → motive e)
    (e : Expr R) : motive e := by
  refine step e ?_ ?_
  · intro c hc
    have hlt := weight_lt_of_mem_children hc
    exact simplified_induct step c
  · intro node next hnode hr
    obtain ⟨cs, hcs, hb⟩ := mapChildren_eq_ok_iff.1 hnode
    have hle := weight_rebuild_le (notHeavier_of_simplified hcs) hb
    have hlt := Nat.lt_of_lt_of_le (Rule.weight_reduce?_lt hr) hle
    exact simplified_induct step next
termination_by e.weight

/-! ## Successful runs -/

/-- A rebuilt node gets a simplified form exactly where no rule applies to it or what the
rule gives can be simplified. -/
theorem simplifyNext_eq_ok_iff {node s : Expr R} :
    simplifyNext node = .ok s ↔
      Rule.reduce? node = .ok none ∧ s = node ∨
        ∃ next, Rule.reduce? node = .ok (some next) ∧ next.simplified = .ok s := by
  rw [simplifyNext]
  split
  · rename_i x hr
    simp [hr]
  · rename_i hr
    simp [hr, eq_comm]
  · rename_i next hr
    simp [hr]

/-- A run succeeds exactly where the node can be rebuilt from the simplified forms of its
direct subexpressions, and the rebuilt node gets a simplified form. -/
theorem simplified_eq_ok_iff {e s : Expr R} :
    e.simplified = .ok s ↔
      ∃ node, e.mapChildren .shape simplified = .ok node ∧
        (Rule.reduce? node = .ok none ∧ s = node ∨
          ∃ next, Rule.reduce? node = .ok (some next) ∧ next.simplified = .ok s) := by
  rw [simplified_eq, bind_eq_ok_iff]
  simp only [simplifyNext_eq_ok_iff]

/-- A real literal is simplified. -/
@[simp] theorem simplified_number (v : R) : (Expr.number v).simplified = .ok (.number v) :=
  simplified_eq_ok_iff.2 ⟨.number v, rfl, .inl ⟨rfl, rfl⟩⟩

/-- A complex literal is simplified. -/
@[simp] theorem simplified_complex (z : ComplexNumber R) :
    (Expr.complex z).simplified = .ok (.complex z) :=
  simplified_eq_ok_iff.2 ⟨.complex z, rfl, .inl ⟨rfl, rfl⟩⟩

/-- A variable is simplified. -/
@[simp] theorem simplified_var (x : String) :
    (Expr.var x : Expr R).simplified = .ok (.var x) :=
  simplified_eq_ok_iff.2 ⟨.var x, rfl, .inl ⟨rfl, rfl⟩⟩

/-- A node over one operand is simplified after the operand, whose failure is its own. -/
theorem simplified_unary (op : UnaryOp) (e : Expr R) :
    (Expr.unary op e).simplified = e.simplified >>= fun s => simplifyNext (.unary op s) := by
  rw [simplified_eq, mapChildren, children, List.mapM_cons, List.mapM_nil]
  cases e.simplified with
  | error x => rfl
  | ok s => rfl

/-- A node over two operands is simplified after the operands, the left one first; the
first failure is its own. -/
theorem simplified_binary (op : BinaryOp) (l r : Expr R) :
    (Expr.binary op l r).simplified =
      l.simplified >>= fun v => r.simplified >>= fun w => simplifyNext (.binary op v w) := by
  rw [simplified_eq, mapChildren, children, List.mapM_cons, List.mapM_cons, List.mapM_nil]
  cases l.simplified with
  | error x => rfl
  | ok v =>
    cases r.simplified with
    | error x => rfl
    | ok w => rfl

/-- A node over one operand is simplified after the operand. -/
theorem simplified_unary_eq {op : UnaryOp} {e e' : Expr R} (he : e.simplified = .ok e') :
    (Expr.unary op e).simplified = simplifyNext (.unary op e') := by
  rw [simplified_unary, he]
  rfl

/-- A node over two operands is simplified after the operands. -/
theorem simplified_binary_eq {op : BinaryOp} {l r l' r' : Expr R}
    (hl : l.simplified = .ok l') (hr : r.simplified = .ok r') :
    (Expr.binary op l r).simplified = simplifyNext (.binary op l' r') := by
  rw [simplified_binary, hl, hr]
  rfl

/-- A relation between an expression and its simplified form holds where it is handed on
from the direct subexpressions to a node that no rule applies to, and from what a rule
gives to the node that the rule applies to. -/
theorem simplified_rec {motive : Expr R → Expr R → Prop}
    (keep : ∀ e cs node, List.Forall₂ motive e.children cs →
      e.rebuild SimplifyError.shape cs = .ok node → Rule.reduce? node = .ok none →
      motive e node)
    (rule : ∀ e cs node next s, List.Forall₂ motive e.children cs →
      e.rebuild SimplifyError.shape cs = .ok node → Rule.reduce? node = .ok (some next) →
      motive next s → motive e s)
    {e s : Expr R} (h : e.simplified = .ok s) : motive e s := by
  induction e using simplified_induct generalizing s with
  | step e ihc ihn =>
    obtain ⟨node, hnode, hs⟩ := simplified_eq_ok_iff.1 h
    obtain ⟨cs, hcs, hb⟩ := mapChildren_eq_ok_iff.1 hnode
    have hm : List.Forall₂ motive e.children cs :=
      forall₂_imp_of_mem hcs fun c hc c' hc' => ihc c hc hc'
    rcases hs with ⟨hr, rfl⟩ | ⟨next, hr, hs⟩
    · exact keep e cs s hm hb hr
    · exact rule e cs node next s hm hb hr (ihn node next hnode hr hs)

end SymbolicAlgebra.Expr
